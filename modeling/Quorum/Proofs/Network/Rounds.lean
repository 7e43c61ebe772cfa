import Mathlib
import Quorum.Network.Manager

/-!
# Rounds of dials

A round dials one address after the other. What the network makes of a dial is an `Attempt`: it
ends in time or is given up at the limit, and the next one begins where it left the network
(`attempts`). A round records its attempts in their order, each from the moment at which the one
before ended (`round_consecutive`, `round_records`), so the report of the start tells the bootstrap
nodes apart by what came of their own dials (`bootstrap_spec`). Any row of outcomes can come of a
round, also at one address (`attempts_tape`).
-/

namespace Quorum.Dialing

variable {σ : Type}

/-- A dial of a round: the network before it, and the network's reply. -/
structure Attempt (σ : Type) where
  address : Multiaddr
  before : σ
  reply : DialReply σ

namespace Attempt

variable (limit : Time) (x : Attempt σ)

/-- Whether the dial ends by itself, at the limit at the latest. -/
def inTime : Bool := x.reply.delay.any (· ≤ limit)

/-- Whom the dial connects. -/
def peer? : Option PeerId := if x.inTime limit then x.reply.result.toOption else none

def connects : Bool := (x.peer? limit).isSome

/-- How long the dial takes. -/
def span : Time := (x.reply.delay.map (min · limit)).getD limit

/-- The network after the dial. -/
def after : σ := if x.inTime limit then x.reply.state else x.reply.abandoned

/-- What is recorded of a dial that begins at `now`. -/
def record (now : Time) : DialRecord :=
  ⟨x.address, now, now + x.span limit,
   if x.inTime limit then x.reply.result else .error (.dialTimeout x.address.text)⟩

theorem isConnected_record (now : Time) : (x.record limit now).isConnected = x.connects limit := by
  unfold record connects peer? DialRecord.isConnected
  cases x.inTime limit with
  | false => rfl
  | true => cases x.reply.result <;> rfl

end Attempt

/-- What a network makes of an address. -/
def attempt (t : Transport σ) (a : Multiaddr) (s : σ) : Attempt σ := ⟨a, s, t.dial a s⟩

/-- The dials of a round, each on the network that the one before has left. -/
def attempts (t : Transport σ) (limit : Time) : List Multiaddr → σ → List (Attempt σ)
  | [], _ => []
  | a :: rest, s => attempt t a s :: attempts t limit rest ((attempt t a s).after limit)

/-- The dials are made one after the other, the first of them at `now`. -/
def Consecutive : Time → List DialRecord → Prop
  | _, [] => True
  | now, r :: rest => r.began = now ∧ Consecutive r.ended rest

variable {t : Transport σ} {limit : Time}

theorem address_attempts (t : Transport σ) (limit : Time) (addresses : List Multiaddr) (s : σ) :
    (attempts t limit addresses s).map (·.address) = addresses := by
  induction addresses generalizing s with
  | nil => rfl
  | cons a rest ih => rw [attempts, List.map_cons, ih, attempt]

/-! ## The records -/

/-- **A dial is cut off at the limit.** -/
theorem dialWithin_eq (t : Transport σ) (limit now : Time) (a : Multiaddr) (s : σ) :
    dialWithin t limit now a s =
      ((attempt t a s).record limit now, (attempt t a s).after limit) := by
  unfold dialWithin Attempt.record Attempt.after Attempt.span Attempt.inTime attempt
  generalize t.dial a s = reply
  obtain ⟨delay, result, state, abandoned⟩ := reply
  cases delay with
  | none => rfl
  | some d =>
    by_cases hd : d ≤ limit
    · simp [hd]
    · simp [hd, Nat.le_of_not_le hd]

theorem round_cons (t : Transport σ) (limit now : Time) (a : Multiaddr) (rest : List Multiaddr)
    (s : σ) : round t limit now (a :: rest) s =
      let x := attempt t a s
      let next := round t limit (now + x.span limit) rest (x.after limit)
      (x.record limit now :: next.1, next.2) := by
  rw [round, dialWithin_eq]
  rfl

theorem round_consecutive (t : Transport σ) (limit now : Time) (addresses : List Multiaddr)
    (s : σ) : Consecutive now (round t limit now addresses s).1 := by
  induction addresses generalizing now s with
  | nil => trivial
  | cons a rest ih =>
    rw [round_cons]
    exact ⟨rfl, ih _ _⟩

theorem round_records (t : Transport σ) (limit now : Time) (addresses : List Multiaddr) (s : σ) :
    List.Forall₂ (fun r x => r = x.record limit r.began) (round t limit now addresses s).1
      (attempts t limit addresses s) := by
  induction addresses generalizing now s with
  | nil => exact .nil
  | cons a rest ih =>
    rw [round_cons]
    exact .cons rfl (ih _ _)

/-- What a report reads off the records is read off the attempts. -/
theorem round_outcomes (t : Transport σ) (limit now : Time) (addresses : List Multiaddr) (s : σ) :
    (round t limit now addresses s).1.map (fun r => (r.address, r.isConnected)) =
      (attempts t limit addresses s).map fun x => (x.address, x.connects limit) := by
  have hrecords := round_records t limit now addresses s
  generalize (round t limit now addresses s).1 = records at hrecords ⊢
  generalize attempts t limit addresses s = dials at hrecords ⊢
  induction hrecords with
  | nil => rfl
  | cons hr _ ih =>
    rw [List.map_cons, List.map_cons, ih, hr, Attempt.isConnected_record]
    rfl

theorem address_round (t : Transport σ) (limit now : Time) (addresses : List Multiaddr) (s : σ) :
    (round t limit now addresses s).1.map (·.address) = addresses := by
  have houtcomes := congrArg (List.map Prod.fst) (round_outcomes t limit now addresses s)
  rw [List.map_map, List.map_map] at houtcomes
  exact houtcomes.trans (address_attempts t limit addresses s)

/-- The addresses whose dials came out one way. -/
theorem filter_round (t : Transport σ) (limit now : Time) (addresses : List Multiaddr) (s : σ)
    (keep : Bool → Bool) :
    ((round t limit now addresses s).1.filter fun r => keep r.isConnected).map (·.address) =
      ((attempts t limit addresses s).filter fun x => keep (x.connects limit)).map
        (·.address) := by
  have houtcomes := congrArg (fun os => (os.filter fun o => keep o.2).map Prod.fst)
    (round_outcomes t limit now addresses s)
  simpa only [List.filter_map, List.map_map, Function.comp_def] using houtcomes

theorem countP_round (t : Transport σ) (limit now : Time) (addresses : List Multiaddr) (s : σ) :
    (round t limit now addresses s).1.countP (·.isConnected) =
      (attempts t limit addresses s).countP (·.connects limit) := by
  have hfilter := congrArg List.length (filter_round t limit now addresses s id)
  rw [List.length_map, List.length_map] at hfilter
  rwa [List.countP_eq_length_filter, List.countP_eq_length_filter]

/-- The last dial ends when all the time of the dials is spent. -/
theorem last_ended (t : Transport σ) (limit now : Time) (addresses : List Multiaddr) (s : σ) :
    ((round t limit now addresses s).1.getLast?.map (·.ended)).getD now =
      now + ((attempts t limit addresses s).map (·.span limit)).sum := by
  induction addresses generalizing now s with
  | nil => rfl
  | cons a rest ih =>
    have hrest := ih (now + (attempt t a s).span limit) ((attempt t a s).after limit)
    rw [round_cons, attempts, List.map_cons, List.sum_cons, ← Nat.add_assoc, ← hrest]
    dsimp only
    generalize (round t limit _ rest _).1 = records
    rw [List.getLast?_cons]
    cases records.getLast? <;> rfl

/-- The network afterwards is the one that the last dial has left. -/
theorem round_state (t : Transport σ) (limit now : Time) (addresses : List Multiaddr) (s : σ) :
    (round t limit now addresses s).2 =
      ((attempts t limit addresses s).getLast?.map (·.after limit)).getD s := by
  induction addresses generalizing now s with
  | nil => rfl
  | cons a rest ih =>
    rw [round_cons, attempts, List.getLast?_cons]
    dsimp only
    rw [ih]
    cases (attempts t limit rest ((attempt t a s).after limit)).getLast? <;> rfl

/-! ## The start -/

/-- **Every bootstrap node is dialed once, in the order given, and reported for what came of its
dial.** The dials are made one after the other, each on the network that the one before has left,
and no others. A node is reported as connected exactly if its dial connected a peer by the limit,
and as failed else; the two reports keep the order and are all nodes together, each as often as it
is configured. The time spent is that of all dials, each cut off at the limit. -/
theorem bootstrap_spec (m : Manager) (t : Transport σ) (s : σ) :
    let limit := m.dialTimeout
    let dials := attempts t limit m.bootstrap s
    let records := (start t limit m.bootstrap s).1
    let act := m.start t s
    act.calls = m.bootstrap.map .dial ∧ dials.map (·.address) = m.bootstrap ∧
    Consecutive 0 records ∧
    List.Forall₂ (fun r x => r = x.record limit r.began) records dials ∧
    act.value.connected = (dials.filter fun x => x.connects limit).map (·.address) ∧
    act.value.failed = (dials.filter fun x => !x.connects limit).map (·.address) ∧
    act.value.connected.Sublist m.bootstrap ∧ act.value.failed.Sublist m.bootstrap ∧
    (act.value.connected ++ act.value.failed).Perm m.bootstrap ∧
    act.elapsed = (dials.map (·.span limit)).sum ∧
    act.state = (dials.getLast?.map (·.after limit)).getD s := by
  intro limit dials records act
  have haddress : dials.map (·.address) = m.bootstrap := address_attempts t limit m.bootstrap s
  have hconnected : act.value.connected =
      (dials.filter fun x => x.connects limit).map (·.address) :=
    filter_round t limit 0 m.bootstrap s id
  have hfailed : act.value.failed = (dials.filter fun x => !x.connects limit).map (·.address) :=
    filter_round t limit 0 m.bootstrap s not
  refine ⟨?_, haddress, round_consecutive t limit 0 m.bootstrap s,
    round_records t limit 0 m.bootstrap s, hconnected, hfailed, ?_, ?_, ?_, ?_,
    round_state t limit 0 m.bootstrap s⟩
  · have hcalls := congrArg (List.map Manager.Call.dial) (address_round t limit 0 m.bootstrap s)
    rwa [List.map_map] at hcalls
  · rw [hconnected, ← haddress]
    exact List.filter_sublist.map _
  · rw [hfailed, ← haddress]
    exact List.filter_sublist.map _
  · rw [hconnected, hfailed, ← haddress, ← List.map_append]
    exact (List.filter_append_perm (fun x => x.connects limit) dials).map _
  · have hlast := last_ended t limit 0 m.bootstrap s
    rwa [Nat.zero_add] at hlast

/-! ## Any outcomes -/

/-- A network that replies to one dial after the other as a list says, whomever they are for. -/
def tape : Transport (List (Option Time × Except NetworkError PeerId)) where
  peers _ := []
  dial _
    | [] => ⟨none, .error .closed, [], []⟩
    | (delay, result) :: rest => ⟨delay, result, rest, rest⟩

/-- **Any delays and results can come of the dials of a round.** -/
theorem attempts_tape (limit : Time) (addresses : List Multiaddr)
    (outcomes : List (Option Time × Except NetworkError PeerId))
    (h : outcomes.length = addresses.length) :
    (attempts tape limit addresses outcomes).map (fun x => (x.reply.delay, x.reply.result)) =
      outcomes := by
  induction addresses generalizing outcomes with
  | nil => exact (List.eq_nil_of_length_eq_zero h).symm
  | cons a rest ih =>
    obtain ⟨o, outcomes, rfl⟩ := List.exists_cons_of_length_eq_add_one h
    have hafter : (attempt tape a (o :: outcomes)).after limit = outcomes := ite_self _
    rw [attempts, hafter, List.map_cons, ih outcomes (Nat.succ.inj h)]
    rfl

/-- A manager that gives a dial ten seconds. -/
def patient (bootstrap : List Multiaddr) : Manager :=
  ⟨bootstrap, 10 * second, ⟨1, Double.ofNat 1⟩, 10 * second, 20 * second⟩

/-- One node is configured twice: its first dial hangs, the second connects just at the limit. -/
theorem bootstrap_spec_repeated :
    let twice : Multiaddr := ⟨[.ip (.v4 [10, 0, 0, 1]), .number .tcp 4001]⟩
    let once : Multiaddr := ⟨[.ip (.v4 [10, 0, 0, 2]), .number .tcp 4001]⟩
    let peer : Except NetworkError PeerId := .ok ⟨.sha256, [1]⟩
    let act := (patient [twice, twice, once]).start tape
      [(none, peer), (some (10 * second), peer), (some 3, .error .closed)]
    act.value.connected = [twice] ∧ act.value.failed = [twice, once] ∧
      act.elapsed = 20 * second + 3 := by
  intro twice once peer act
  obtain ⟨-, -, -, -, hconnected, hfailed, -, -, -, helapsed, -⟩ :=
    bootstrap_spec (patient [twice, twice, once]) tape
      [(none, peer), (some (10 * second), peer), (some 3, .error .closed)]
  exact ⟨hconnected.trans (by decide), hfailed.trans (by decide), helapsed.trans (by decide)⟩

end Quorum.Dialing
