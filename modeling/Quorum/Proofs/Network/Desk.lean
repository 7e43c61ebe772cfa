import Mathlib
import Quorum.Network.Loop

/-!
# The desk of a loop

Callers see no more of a loop than its `Desk`: the commands that wait, the dials and requests
under way, and the answers given. `Move` says once what an event can do to a desk, and every
step is a move (`step_move`). `Inv` accounts for all commands handed in so far; every move keeps
it (`Move.inv`), so it holds along every run (`inv_run`).
-/

namespace Quorum

namespace Loop

/-- The part of a loop that its callers have to do with. -/
structure Desk where
  stopped : Bool
  submitted : Nat
  queue : List (Nat × Command)
  nextConnection : Nat
  dials : List (Nat × Nat)
  nextRequest : Nat
  requests : List Pending
  answers : List (Nat × Answer)

def desk (s : Loop) : Desk where
  stopped := s.stopped
  submitted := s.submitted
  queue := s.queue
  nextConnection := s.nextConnection
  dials := s.dials
  nextRequest := s.nextRequest
  requests := s.requests
  answers := s.answers

/-- The commands handed in during a run; their places are their tickets. -/
def commands (events : List Event) : List Command :=
  events.filterMap fun
    | .submit c => some c
    | _ => none

/-- The answers that a command gets as soon as it is taken. -/
inductive AtOnce : Option String → Command → Answer → Prop where
  | dialRefused {text : String} {address : Multiaddr} :
      AtOnce (some text) (.dial address) (.failed (.dial text))
  | published {data : Bytes} : AtOnce none (.publish data) .published
  | publishRefused {text : String} {data : Bytes} :
      AtOnce (some text) (.publish data) (.failed (.publish text))
  | stopped {refusal : Option String} : AtOnce refusal .shutdown .stopped

/-- The events that end the dial of a connection, with the answers to it. -/
inductive DialEnd : Event → Nat → Answer → Prop where
  | established {connection : Nat} {peer : PeerId} {now : Time} :
      DialEnd (.established connection peer now) connection (.connected peer)
  | failed {connection : Nat} {reason : String} :
      DialEnd (.dialFailed connection reason) connection (.failed (.dial reason))

/-- The events that end a request to a peer, with the answers to it. -/
inductive RequestEnd : Event → Nat → PeerId → Answer → Prop where
  | answered {request : Nat} {peer : PeerId} {r : Response} :
      RequestEnd (.answered request r) request peer (.response r)
  | failed {request : Nat} {peer : PeerId} {reason : String} :
      RequestEnd (.requestFailed request reason) request peer
        (.failed (.requestFailed peer reason))

namespace Desk

/-- The tickets of all commands without an answer. -/
def unanswered (d : Desk) : List Nat :=
  d.dials.map (·.2) ++ d.requests.map (·.ticket) ++ d.queue.map (·.1)

/-- Events that no caller waits for. -/
inductive Foreign (d : Desk) : Event → Prop where
  | opened : Foreign d .opened
  | sighted {peer : PeerId} {now : Time} : Foreign d (.sighted peer now)
  | received {peer : PeerId} {i : Inbound} : Foreign d (.received peer i)
  | finished {run : Nat} {result : Except BackendError Json} : Foreign d (.finished run result)
  | handOver {run : Nat} : Foreign d (.handOver run)
  | drain : Foreign d .drain
  | prune {now : Time} : Foreign d (.prune now)
  | explore {known : Bool} : Foreign d (.explore known)
  | take {refusal : Option String} (hq : d.queue = []) : Foreign d (.take refusal)
  /-- The connection is of another peer's making, or its dial has been answered. -/
  | connection {e : Event} {connection : Nat} {a : Answer} (he : DialEnd e connection a)
      (h : ∀ x ∈ d.dials, x.1 ≠ connection) : Foreign d e
  | request {e : Event} {request : Nat} {peer : PeerId} {a : Answer}
      (he : RequestEnd e request peer a) (h : ∀ p ∈ d.requests, p.request ≠ request) :
      Foreign d e

/-- What an event can do to a desk. -/
inductive Move (d : Desk) : Event → Desk → Prop where
  | foreign {e : Event} {n : Nat} (he : Foreign d e) (hn : d.nextConnection ≤ n) :
      Move d e { d with nextConnection := n }
  | queue {c : Command} (hs : d.stopped = false) :
      Move d (.submit c) { d with
        submitted := d.submitted + 1
        queue := d.queue ++ [(d.submitted, c)] }
  | late {c : Command} (hs : d.stopped = true) :
      Move d (.submit c) { d with
        submitted := d.submitted + 1
        answers := (d.submitted, .failed .closed) :: d.answers }
  | dial {t : Nat} {address : Multiaddr} {rest : List (Nat × Command)}
      (hq : d.queue = (t, .dial address) :: rest) :
      Move d (.take none) { d with
        queue := rest
        nextConnection := d.nextConnection + 1
        dials := (d.nextConnection, t) :: d.dials }
  | ask {refusal : Option String} {t : Nat} {peer : PeerId} {r : Request}
      {rest : List (Nat × Command)} (hq : d.queue = (t, .ask peer r) :: rest) :
      Move d (.take refusal) { d with
        queue := rest
        nextRequest := d.nextRequest + 1
        requests := ⟨d.nextRequest, peer, t⟩ :: d.requests }
  | reply {refusal : Option String} {t n : Nat} {c : Command} {a : Answer}
      {rest : List (Nat × Command)} (hq : d.queue = (t, c) :: rest) (ha : AtOnce refusal c a)
      (hc : c ≠ .shutdown) (hn : d.nextConnection ≤ n) :
      Move d (.take refusal) { d with
        queue := rest
        nextConnection := n
        answers := (t, a) :: d.answers }
  | shutdown {refusal : Option String} {t : Nat} {rest : List (Nat × Command)}
      (hq : d.queue = (t, .shutdown) :: rest) :
      Move d (.take refusal) { d with
        stopped := true
        queue := []
        dials := []
        requests := []
        answers := { d with queue := rest }.unanswered.map (·, .failed .closed) ++
          (t, .stopped) :: d.answers }
  | endDial {e : Event} {connection t : Nat} {a : Answer} (h : (connection, t) ∈ d.dials)
      (he : DialEnd e connection a) :
      Move d e { d with
        dials := d.dials.filter (·.1 != connection)
        answers := (t, a) :: d.answers }
  | endRequest {e : Event} {request t : Nat} {peer : PeerId} {a : Answer}
      (h : ⟨request, peer, t⟩ ∈ d.requests) (he : RequestEnd e request peer a) :
      Move d e { d with
        requests := d.requests.filter (·.request != request)
        answers := (t, a) :: d.answers }

/-- What holds of a desk after the commands `cs` have been handed in. -/
structure Inv (cs : List Command) (d : Desk) : Prop where
  submitted : d.submitted = cs.length
  /-- Every ticket is in exactly one place. -/
  places : (d.unanswered ++ d.answers.map (·.1)).Perm (List.range cs.length)
  queue : ∀ x ∈ d.queue, cs[x.1]? = some x.2
  dials : ∀ x ∈ d.dials, x.1 < d.nextConnection ∧ ∃ address, cs[x.2]? = some (.dial address)
  connections : (d.dials.map (·.1)).Nodup
  requests : ∀ p ∈ d.requests, p.request < d.nextRequest ∧ ∃ r, cs[p.ticket]? = some (.ask p.peer r)
  ids : (d.requests.map (·.request)).Nodup
  quiet : d.stopped = true → d.queue = [] ∧ d.dials = [] ∧ d.requests = []

end Desk

variable {s : Loop} {d d' : Desk} {e : Event} {a : Answer} {events : List Event} {cs : List Command}
  {t : Nat}

/-! ## What a step does -/

theorem desk_discover (s : Loop) (peer : PeerId) (now : Time) :
    (s.discover peer now).desk = s.desk := by
  unfold discover
  split <;> rfl

theorem desk_finish (s : Loop) (run : Nat) (result : Except BackendError Json) :
    (s.finish run result).desk = s.desk := by
  unfold finish
  split <;> rfl

theorem desk_drain (s : Loop) : s.drain.desk = s.desk := by
  unfold drain
  split <;> rfl

theorem desk_handOver (s : Loop) (run : Nat) : (s.handOver run).desk = s.desk := by
  unfold handOver
  split
  · dsimp only
    split
    · rfl
    · split <;> rfl
  · rfl

theorem Desk.Foreign.move (he : d.Foreign e) (h : d' = d) : d.Move e d' := by
  rw [h]
  exact .foreign he (Nat.le_refl _)

theorem endDial_move {connection : Nat} (he : DialEnd e connection a) :
    s.desk.Move e (s.endDial connection a).desk := by
  unfold endDial
  split
  · rename_i t ht
    obtain ⟨before, after, hd, -⟩ := List.lookup_eq_some_iff.1 ht
    exact .endDial (show (connection, t) ∈ s.dials by simp [hd]) he
  · rename_i hnone
    refine Desk.Foreign.move (.connection he fun x hx heq => ?_) rfl
    have := List.lookup_eq_none_iff.1 hnone x hx
    simp [heq] at this

theorem endRequest_move {request : Nat} {answer : Pending → Answer}
    (he : ∀ p : Pending, RequestEnd e request p.peer (answer p)) :
    s.desk.Move e (s.endRequest request answer).desk := by
  unfold endRequest
  split
  · rename_i p hp
    have hid : p.request = request := by simpa using List.find?_some hp
    subst hid
    exact .endRequest (List.mem_of_find?_eq_some hp) (he p)
  · rename_i hnone
    refine Desk.Foreign.move (.request (he ⟨request, s.own, 0⟩) fun p hp heq => ?_) rfl
    have := List.find?_eq_none.1 hnone p hp
    simp [heq] at this

theorem take_move (refusal : Option String) :
    s.desk.Move (.take refusal) (s.take refusal).desk := by
  unfold take
  split
  · rename_i hq
    exact Desk.Foreign.move (.take hq) rfl
  · rename_i t c rest hq
    cases c with
    | dial address =>
      cases refusal with
      | none => exact .dial hq
      | some text => exact .reply hq .dialRefused nofun (Nat.le_succ _)
    | ask peer r => exact .ask hq
    | publish data =>
      cases refusal with
      | none => exact .reply hq .published nofun (Nat.le_refl _)
      | some text => exact .reply hq .publishRefused nofun (Nat.le_refl _)
    | shutdown => exact .shutdown hq

theorem submit_move (c : Command) : s.desk.Move (.submit c) (s.submit c).desk := by
  unfold submit
  dsimp only
  split
  · rename_i hs
    exact .late hs
  · rename_i hs
    exact .queue (Bool.eq_false_iff.2 hs)

/-- **Every step is a move.** -/
theorem step_move (h : s.desk.Inv cs) (e : Event) : s.desk.Move e (s.step e).desk := by
  unfold step
  split
  · rename_i hs
    obtain ⟨hq, hd, hr⟩ := h.quiet hs
    have hdials : ∀ connection, ∀ x ∈ s.desk.dials, x.1 ≠ connection := by simp [hd]
    have hrequests : ∀ request, ∀ p ∈ s.desk.requests, p.request ≠ request := by simp [hr]
    cases e with
    | submit c => exact submit_move c
    | take refusal => exact Desk.Foreign.move (.take hq) rfl
    | opened => exact Desk.Foreign.move .opened rfl
    | established connection peer now =>
      exact Desk.Foreign.move (.connection .established (hdials connection)) rfl
    | dialFailed connection reason =>
      exact Desk.Foreign.move (.connection .failed (hdials connection)) rfl
    | sighted peer now => exact Desk.Foreign.move .sighted rfl
    | answered request r =>
      have hend : RequestEnd (.answered request r) request s.own (.response r) := .answered
      exact Desk.Foreign.move (.request hend (hrequests request)) rfl
    | requestFailed request reason =>
      have hend : RequestEnd (.requestFailed request reason) request s.own _ := .failed
      exact Desk.Foreign.move (.request hend (hrequests request)) rfl
    | received peer i => exact Desk.Foreign.move .received rfl
    | finished run result => exact Desk.Foreign.move .finished (desk_finish s run result)
    | handOver run => exact Desk.Foreign.move .handOver (desk_handOver s run)
    | drain => exact Desk.Foreign.move .drain rfl
    | prune now => exact Desk.Foreign.move .prune rfl
    | explore known => exact Desk.Foreign.move .explore rfl
  · cases e with
    | submit c => exact submit_move c
    | take refusal => exact take_move refusal
    | opened => exact .foreign .opened (Nat.le_succ _)
    | established connection peer now =>
      rw [← desk_discover s peer now]
      exact endDial_move .established
    | dialFailed connection reason => exact endDial_move .failed
    | sighted peer now => exact Desk.Foreign.move .sighted (desk_discover s peer now)
    | answered request r => exact endRequest_move fun _ => .answered
    | requestFailed request reason => exact endRequest_move fun _ => .failed
    | received peer i => exact Desk.Foreign.move .received rfl
    | finished run result => exact Desk.Foreign.move .finished (desk_finish s run result)
    | handOver run => exact Desk.Foreign.move .handOver (desk_handOver s run)
    | drain => exact Desk.Foreign.move .drain (desk_drain s)
    | prune now => exact Desk.Foreign.move .prune rfl
    | explore known => exact Desk.Foreign.move .explore rfl

/-! ## The invariant -/

/-- Taking an entry out of a list whose keys are distinct. -/
theorem perm_cons_filter {α : Type} {key : α → Nat} {x : α} :
    ∀ {l : List α}, (l.map key).Nodup → x ∈ l → l.Perm (x :: l.filter (key · != key x))
  | y :: l, hl, hx => by
    obtain ⟨hy, hl⟩ := List.nodup_cons.1 hl
    rcases List.mem_cons.1 hx with rfl | hx
    · have hkeep : l.filter (key · != key x) = l := by
        refine List.filter_eq_self.2 fun z hz => ?_
        have hne : key z ≠ key x := fun h => hy (h ▸ List.mem_map_of_mem hz)
        simpa using hne
      rw [List.filter_cons_of_neg (by simp), hkeep]
    · have hne : key y ≠ key x := fun h => hy (h ▸ List.mem_map_of_mem hx)
      rw [List.filter_cons_of_pos (by simpa using hne)]
      exact ((perm_cons_filter hl hx).cons y).trans (.swap x y _)

theorem known_append {c : Command} (h : cs[t]? = some c) (cs' : List Command) :
    (cs ++ cs')[t]? = some c := by
  rw [List.getElem?_append_left (List.getElem?_eq_some_iff.1 h).1, h]

theorem DialEnd.commands_eq {connection : Nat} (he : DialEnd e connection a) :
    commands [e] = [] := by
  cases he <;> rfl

theorem RequestEnd.commands_eq {request : Nat} {peer : PeerId} (he : RequestEnd e request peer a) :
    commands [e] = [] := by
  cases he <;> rfl

theorem Desk.Foreign.commands_eq (he : d.Foreign e) : commands [e] = [] := by
  cases he with
  | connection he => exact he.commands_eq
  | request he => exact he.commands_eq
  | _ => rfl

namespace Desk

theorem inv_foreign {n : Nat} (h : d.Inv cs) (hn : d.nextConnection ≤ n) :
    { d with nextConnection := n }.Inv cs where
  submitted := h.submitted
  places := h.places
  queue := h.queue
  dials := fun x hx => ⟨(h.dials x hx).1.trans_le hn, (h.dials x hx).2⟩
  connections := h.connections
  requests := h.requests
  ids := h.ids
  quiet := h.quiet

theorem inv_queue {c : Command} (h : d.Inv cs) (hs : d.stopped = false) :
    { d with submitted := d.submitted + 1, queue := d.queue ++ [(d.submitted, c)] }.Inv
      (cs ++ [c]) where
  submitted := by simp [h.submitted]
  places := by
    refine List.perm_iff_count.2 fun x => ?_
    have := List.perm_iff_count.1 h.places x
    simp only [unanswered, h.submitted, List.map_append, List.map_cons, List.map_nil,
      List.count_append, List.length_append, List.length_singleton, List.range_succ] at this ⊢
    omega
  queue := by
    intro x hx
    rcases List.mem_append.1 hx with hx | hx
    · exact known_append (h.queue x hx) _
    · simp [List.mem_singleton.1 hx, h.submitted]
  dials := fun x hx => ⟨(h.dials x hx).1, (h.dials x hx).2.imp fun _ ha => known_append ha _⟩
  connections := h.connections
  requests := fun p hp =>
    ⟨(h.requests p hp).1, (h.requests p hp).2.imp fun _ hr => known_append hr _⟩
  ids := h.ids
  quiet := fun hs' => absurd (hs.symm.trans hs') Bool.false_ne_true

theorem inv_late {c : Command} (h : d.Inv cs) (hs : d.stopped = true) :
    { d with
      submitted := d.submitted + 1
      answers := (d.submitted, .failed .closed) :: d.answers }.Inv (cs ++ [c]) where
  submitted := by simp [h.submitted]
  places := by
    refine List.perm_iff_count.2 fun x => ?_
    have := List.perm_iff_count.1 h.places x
    simp only [unanswered, h.submitted, List.map_cons, List.count_append, List.count_cons,
      List.length_append, List.length_singleton, List.range_succ, List.count_nil] at this ⊢
    omega
  queue := fun x hx => known_append (h.queue x hx) _
  dials := fun x hx => ⟨(h.dials x hx).1, (h.dials x hx).2.imp fun _ ha => known_append ha _⟩
  connections := h.connections
  requests := fun p hp =>
    ⟨(h.requests p hp).1, (h.requests p hp).2.imp fun _ hr => known_append hr _⟩
  ids := h.ids
  quiet := fun _ => h.quiet hs

theorem Inv.running (h : d.Inv cs) (hq : d.queue ≠ []) : d.stopped = false :=
  Bool.eq_false_iff.2 fun hs => hq (h.quiet hs).1

theorem inv_dial {address : Multiaddr} {rest : List (Nat × Command)} (h : d.Inv cs)
    (hq : d.queue = (t, .dial address) :: rest) :
    { d with
      queue := rest
      nextConnection := d.nextConnection + 1
      dials := (d.nextConnection, t) :: d.dials }.Inv cs where
  submitted := h.submitted
  places := by
    refine List.perm_iff_count.2 fun x => ?_
    have := List.perm_iff_count.1 h.places x
    simp only [unanswered, hq, List.map_cons, List.count_append, List.count_cons] at this ⊢
    omega
  queue := fun x hx => h.queue x (hq ▸ List.mem_cons_of_mem _ hx)
  dials := by
    intro x hx
    rcases List.mem_cons.1 hx with rfl | hx
    · exact ⟨Nat.lt_succ_self _, address, h.queue _ (hq ▸ List.mem_cons_self)⟩
    · exact ⟨(h.dials x hx).1.trans (Nat.lt_succ_self _), (h.dials x hx).2⟩
  connections := by
    refine List.nodup_cons.2 ⟨fun hmem => ?_, h.connections⟩
    obtain ⟨x, hx, heq⟩ := List.mem_map.1 hmem
    exact absurd heq (h.dials x hx).1.ne
  requests := h.requests
  ids := h.ids
  quiet := fun hs => absurd ((h.running (by simp [hq])).symm.trans hs) Bool.false_ne_true

theorem inv_ask {peer : PeerId} {r : Request} {rest : List (Nat × Command)} (h : d.Inv cs)
    (hq : d.queue = (t, .ask peer r) :: rest) :
    { d with
      queue := rest
      nextRequest := d.nextRequest + 1
      requests := ⟨d.nextRequest, peer, t⟩ :: d.requests }.Inv cs where
  submitted := h.submitted
  places := by
    refine List.perm_iff_count.2 fun x => ?_
    have := List.perm_iff_count.1 h.places x
    simp only [unanswered, hq, List.map_cons, List.count_append, List.count_cons] at this ⊢
    omega
  queue := fun x hx => h.queue x (hq ▸ List.mem_cons_of_mem _ hx)
  dials := h.dials
  connections := h.connections
  requests := by
    intro p hp
    rcases List.mem_cons.1 hp with rfl | hp
    · exact ⟨Nat.lt_succ_self _, r, h.queue _ (hq ▸ List.mem_cons_self)⟩
    · exact ⟨(h.requests p hp).1.trans (Nat.lt_succ_self _), (h.requests p hp).2⟩
  ids := by
    refine List.nodup_cons.2 ⟨fun hmem => ?_, h.ids⟩
    obtain ⟨p, hp, heq⟩ := List.mem_map.1 hmem
    exact absurd heq (h.requests p hp).1.ne
  quiet := fun hs => absurd ((h.running (by simp [hq])).symm.trans hs) Bool.false_ne_true

theorem inv_reply {n : Nat} {c : Command} {rest : List (Nat × Command)} (h : d.Inv cs)
    (hq : d.queue = (t, c) :: rest) (hn : d.nextConnection ≤ n) :
    { d with queue := rest, nextConnection := n, answers := (t, a) :: d.answers }.Inv cs where
  submitted := h.submitted
  places := by
    refine List.perm_iff_count.2 fun x => ?_
    have := List.perm_iff_count.1 h.places x
    simp only [unanswered, hq, List.map_cons, List.count_append, List.count_cons] at this ⊢
    omega
  queue := fun x hx => h.queue x (hq ▸ List.mem_cons_of_mem _ hx)
  dials := fun x hx => ⟨(h.dials x hx).1.trans_le hn, (h.dials x hx).2⟩
  connections := h.connections
  requests := h.requests
  ids := h.ids
  quiet := fun hs => absurd ((h.running (by simp [hq])).symm.trans hs) Bool.false_ne_true

theorem inv_shutdown {rest : List (Nat × Command)} (h : d.Inv cs)
    (hq : d.queue = (t, .shutdown) :: rest) :
    { d with
      stopped := true
      queue := []
      dials := []
      requests := []
      answers := { d with queue := rest }.unanswered.map (·, Answer.failed .closed) ++
        (t, Answer.stopped) :: d.answers }.Inv cs where
  submitted := h.submitted
  places := by
    refine List.perm_iff_count.2 fun x => ?_
    have := List.perm_iff_count.1 h.places x
    simp only [unanswered, hq, List.map_append, List.map_cons, List.map_map, List.map_nil,
      Function.comp_def, List.count_append, List.count_cons, List.count_nil] at this ⊢
    omega
  queue := nofun
  dials := nofun
  connections := .nil
  requests := nofun
  ids := .nil
  quiet := fun _ => ⟨rfl, rfl, rfl⟩

theorem inv_endDial {connection : Nat} (h : d.Inv cs) (hd : (connection, t) ∈ d.dials) :
    { d with
      dials := d.dials.filter (·.1 != connection)
      answers := (t, a) :: d.answers }.Inv cs where
  submitted := h.submitted
  places := by
    refine List.perm_iff_count.2 fun x => ?_
    have := List.perm_iff_count.1 h.places x
    have hout := ((perm_cons_filter h.connections hd).map (·.2)).count_eq x
    simp only [unanswered, List.map_cons, List.count_append, List.count_cons] at this hout ⊢
    omega
  queue := h.queue
  dials := fun x hx => h.dials x (List.mem_of_mem_filter hx)
  connections := h.connections.sublist (List.filter_sublist.map _)
  requests := h.requests
  ids := h.ids
  quiet := fun hs => absurd hd (by simp [(h.quiet hs).2.1])

theorem inv_endRequest {request : Nat} {peer : PeerId} (h : d.Inv cs)
    (hr : ⟨request, peer, t⟩ ∈ d.requests) :
    { d with
      requests := d.requests.filter (·.request != request)
      answers := (t, a) :: d.answers }.Inv cs where
  submitted := h.submitted
  places := by
    refine List.perm_iff_count.2 fun x => ?_
    have := List.perm_iff_count.1 h.places x
    have hout := ((perm_cons_filter h.ids hr).map (·.ticket)).count_eq x
    simp only [unanswered, List.map_cons, List.count_append, List.count_cons] at this hout ⊢
    omega
  queue := h.queue
  dials := h.dials
  connections := h.connections
  requests := fun p hp => h.requests p (List.mem_of_mem_filter hp)
  ids := h.ids.sublist (List.filter_sublist.map _)
  quiet := fun hs => absurd hr (by simp [(h.quiet hs).2.2])

theorem Move.inv (hm : d.Move e d') (h : d.Inv cs) : d'.Inv (cs ++ commands [e]) := by
  cases hm with
  | foreign he hn => exact he.commands_eq ▸ (List.append_nil cs).symm ▸ inv_foreign h hn
  | queue hs => exact inv_queue h hs
  | late hs => exact inv_late h hs
  | dial hq => exact (List.append_nil cs).symm ▸ inv_dial h hq
  | ask hq => exact (List.append_nil cs).symm ▸ inv_ask h hq
  | reply hq _ _ hn => exact (List.append_nil cs).symm ▸ inv_reply h hq hn
  | shutdown hq => exact (List.append_nil cs).symm ▸ inv_shutdown h hq
  | endDial hd he => exact he.commands_eq ▸ (List.append_nil cs).symm ▸ inv_endDial h hd
  | endRequest hr he => exact he.commands_eq ▸ (List.append_nil cs).symm ▸ inv_endRequest h hr

end Desk

theorem commands_append (events events' : List Event) :
    commands (events ++ events') = commands events ++ commands events' :=
  List.filterMap_append

theorem run_concat (s : Loop) (events : List Event) (e : Event) :
    s.run (events ++ [e]) = (s.run events).step e := by
  simp [run]

/-- **The invariant holds along every run.** -/
theorem inv_run (own : PeerId) (ttl : Time) (n : Nat) (events : List Event) :
    ((fresh own ttl n).run events).desk.Inv (commands events) := by
  induction events using List.reverseRecOn with
  | nil =>
    exact ⟨rfl, .refl _, nofun, nofun, .nil, nofun, .nil, fun _ => ⟨rfl, rfl, rfl⟩⟩
  | append_singleton events e ih =>
    rw [run_concat, commands_append]
    exact (step_move ih e).inv ih

end Loop

end Quorum
