import Mathlib
import Quorum.Proofs.Network.Desk

/-!
# The commands of a loop

What became of a command is read off the history of the run. An entry of `dials` is a dial that
was taken as that connection and has no answer yet (`dials_iff`), the same for `requests`
(`requests_iff`), and an answer is given for exactly the reasons that `Cause` lists
(`answers_iff`). Numbers given away never come back, nor does a command once it is taken
(`Leads`), so connections and requests belong to one command each. The results are put together
in `commands_spec`.
-/

namespace Quorum

namespace Loop

/-- In a run from `s₀`, the event `e` met the desk `d`. -/
def Happens (s₀ : Loop) (events : List Event) (d : Desk) (e : Event) : Prop :=
  ∃ before, before ++ [e] <+: events ∧ d = (s₀.run before).desk

/-- In a run from `s₀`, the loop took the command `c`, whose ticket is `t`, while its desk was `d`;
the network may have refused it. -/
def Taken (s₀ : Loop) (events : List Event) (d : Desk) (refusal : Option String) (t : Nat)
    (c : Command) : Prop :=
  Happens s₀ events d (.take refusal) ∧ d.queue.head? = some (t, c)

/-- The connection was opened for the dial of ticket `t`. -/
def Dialed (s₀ : Loop) (events : List Event) (connection t : Nat) : Prop :=
  ∃ d address, Taken s₀ events d none t (.dial address) ∧ d.nextConnection = connection

/-- The request was sent to the peer for the question of ticket `t`. -/
def Asked (s₀ : Loop) (events : List Event) (request : Nat) (peer : PeerId) (t : Nat) : Prop :=
  ∃ d refusal r, Taken s₀ events d refusal t (.ask peer r) ∧ d.nextRequest = request

namespace Desk

/-- The reasons to answer the command `c`, whose ticket is `t`. -/
inductive Cause (d : Desk) : Event → Nat → Command → Answer → Prop where
  | taken {refusal : Option String} {t : Nat} {c : Command} {a : Answer}
      (hq : d.queue.head? = some (t, c)) (ha : AtOnce refusal c a) :
      Cause d (.take refusal) t c a
  | dial {e : Event} {connection t : Nat} {address : Multiaddr} {a : Answer}
      (h : (connection, t) ∈ d.dials) (he : DialEnd e connection a) :
      Cause d e t (.dial address) a
  | ask {e : Event} {request t : Nat} {peer : PeerId} {r : Request} {a : Answer}
      (h : ⟨request, peer, t⟩ ∈ d.requests) (he : RequestEnd e request peer a) :
      Cause d e t (.ask peer r) a
  /-- The loop stops for another command while this one has no answer. -/
  | closed {refusal : Option String} {t last : Nat} {c : Command}
      (hq : d.queue.head? = some (last, .shutdown)) (ht : t ∈ d.unanswered) (hne : t ≠ last) :
      Cause d (.take refusal) t c (.failed .closed)
  | late {c : Command} (hs : d.stopped = true) :
      Cause d (.submit c) d.submitted c (.failed .closed)

end Desk

variable {s : Loop} {d d' : Desk} {e : Event} {a : Answer} {events : List Event} {cs : List Command}
  {t : Nat}

/-! ## What is answered, and why -/

theorem DialEnd.unique {connection connection' : Nat} {a' : Answer}
    (h : DialEnd e connection a) (h' : DialEnd e connection' a') :
    connection = connection' ∧ a = a' := by
  cases h <;> cases h' <;> exact ⟨rfl, rfl⟩

theorem RequestEnd.unique {request request' : Nat} {peer : PeerId} {a' : Answer}
    (h : RequestEnd e request peer a) (h' : RequestEnd e request' peer a') :
    request = request' ∧ a = a' := by
  cases h <;> cases h' <;> exact ⟨rfl, rfl⟩

theorem RequestEnd.request_eq {request request' : Nat} {peer peer' : PeerId} {a' : Answer}
    (h : RequestEnd e request peer a) (h' : RequestEnd e request' peer' a') :
    request = request' := by
  cases h <;> cases h' <;> rfl

theorem AtOnce.unique {refusal : Option String} {c : Command} {a' : Answer}
    (h : AtOnce refusal c a) (h' : AtOnce refusal c a') : a = a' := by
  cases h <;> cases h' <;> rfl

namespace Desk

variable {c : Command}

theorem Inv.lt_of_mem_unanswered (h : d.Inv cs) (ht : t ∈ d.unanswered) : t < cs.length :=
  List.mem_range.1 (h.places.subset (List.mem_append_left _ ht))

theorem Inv.nodup (h : d.Inv cs) : (d.unanswered ++ d.answers.map (·.1)).Nodup :=
  h.places.nodup_iff.2 List.nodup_range

theorem Inv.not_answered (h : d.Inv cs) (ht : t ∈ d.unanswered) : (t, a) ∉ d.answers := fun ha =>
  (List.nodup_append.1 h.nodup).2.2 t ht t (List.mem_map_of_mem ha) rfl

theorem mem_unanswered_of_dials {connection : Nat} (h : (connection, t) ∈ d.dials) :
    t ∈ d.unanswered :=
  List.mem_append_left _ (List.mem_append_left _ (List.mem_map_of_mem h))

theorem mem_unanswered_of_requests {request : Nat} {peer : PeerId}
    (h : ⟨request, peer, t⟩ ∈ d.requests) : t ∈ d.unanswered :=
  List.mem_append_left _ (List.mem_append_right _ (List.mem_map_of_mem h))

theorem mem_unanswered_of_queue (h : (t, c) ∈ d.queue) : t ∈ d.unanswered :=
  List.mem_append_right _ (List.mem_map_of_mem h)

theorem Inv.dial_unique {connection t' : Nat} (h : d.Inv cs) (hd : (connection, t) ∈ d.dials)
    (hd' : (connection, t') ∈ d.dials) : t = t' :=
  congrArg Prod.snd (List.inj_on_of_nodup_map h.connections hd hd' rfl)

theorem Inv.request_unique {request t' : Nat} {peer peer' : PeerId} (h : d.Inv cs)
    (hr : ⟨request, peer, t⟩ ∈ d.requests) (hr' : ⟨request, peer', t'⟩ ∈ d.requests) :
    peer = peer' ∧ t = t' := by
  have heq := List.inj_on_of_nodup_map h.ids hr hr' rfl
  exact ⟨congrArg Pending.peer heq, congrArg Pending.ticket heq⟩

/-- A command is answered only once it has been handed in. -/
theorem Cause.lt (h : d.Inv cs) (hc : d.Cause e t c a) : t < (cs ++ commands [e]).length := by
  have hle : cs.length ≤ (cs ++ commands [e]).length := by simp
  cases hc with
  | taken hq ha =>
    exact (h.lt_of_mem_unanswered (mem_unanswered_of_queue (List.mem_of_head? hq))).trans_le hle
  | dial hd he => exact (h.lt_of_mem_unanswered (mem_unanswered_of_dials hd)).trans_le hle
  | ask hr he => exact (h.lt_of_mem_unanswered (mem_unanswered_of_requests hr)).trans_le hle
  | closed hq ht hne => exact (h.lt_of_mem_unanswered ht).trans_le hle
  | late hs => simp [h.submitted, commands]

theorem Foreign.queue_eq_nil {refusal : Option String} (he : d.Foreign (.take refusal)) :
    d.queue = [] := by
  cases he with
  | take hq => exact hq
  | connection he => cases he
  | request he => cases he

theorem Foreign.not_cause (he : d.Foreign e) : ¬d.Cause e t c a := by
  intro hc
  cases hc with
  | taken hq ha => simp [he.queue_eq_nil] at hq
  | dial hd he' =>
    cases he with
    | connection he h => exact h _ hd (he'.unique he).1
    | request he => cases he <;> cases he'
    | _ => cases he'
  | ask hr he' =>
    cases he with
    | connection he => cases he <;> cases he'
    | request he h => exact h _ hr (he'.request_eq he)
    | _ => cases he'
  | closed hq ht hne => simp [he.queue_eq_nil] at hq
  | late hs =>
    cases he with
    | connection he => cases he
    | request he => cases he

theorem cause_submit {c' : Command} :
    d.Cause (.submit c') t c a ↔
      d.stopped = true ∧ t = d.submitted ∧ c = c' ∧ a = .failed .closed := by
  constructor
  · intro hc
    cases hc with
    | dial hd he => cases he
    | ask hr he => cases he
    | late hs => exact ⟨hs, rfl, rfl, rfl⟩
  · rintro ⟨hs, rfl, rfl, rfl⟩
    exact .late hs

theorem cause_take {refusal : Option String} {first : Nat} {c' : Command}
    {rest : List (Nat × Command)} (hq : d.queue = (first, c') :: rest) :
    d.Cause (.take refusal) t c a ↔ (t = first ∧ c = c' ∧ AtOnce refusal c' a) ∨
      c' = .shutdown ∧ t ∈ d.unanswered ∧ t ≠ first ∧ a = .failed .closed := by
  constructor
  · intro hc
    cases hc with
    | taken hq' ha =>
      rw [hq] at hq'
      cases hq'
      exact .inl ⟨rfl, rfl, ha⟩
    | dial hd he => cases he
    | ask hr he => cases he
    | closed hq' ht hne =>
      rw [hq] at hq'
      cases hq'
      exact .inr ⟨rfl, ht, hne, rfl⟩
  · rintro (⟨rfl, rfl, ha⟩ | ⟨rfl, ht, hne, rfl⟩)
    · exact .taken (by rw [hq]; rfl) ha
    · exact .closed (by rw [hq]; rfl) ht hne

theorem cause_dialEnd {connection t' : Nat} {a' : Answer} (h : d.Inv cs)
    (hd : (connection, t') ∈ d.dials) (he : DialEnd e connection a') :
    d.Cause e t c a ↔ t = t' ∧ (∃ address, c = .dial address) ∧ a = a' := by
  constructor
  · intro hc
    cases hc with
    | taken => cases he
    | dial hd' he' =>
      obtain ⟨rfl, rfl⟩ := he'.unique he
      exact ⟨h.dial_unique hd' hd, ⟨_, rfl⟩, rfl⟩
    | ask hr he' => cases he <;> cases he'
    | closed => cases he
    | late => cases he
  · rintro ⟨rfl, ⟨address, rfl⟩, rfl⟩
    exact .dial hd he

theorem cause_requestEnd {request t' : Nat} {peer : PeerId} {a' : Answer} (h : d.Inv cs)
    (hr : ⟨request, peer, t'⟩ ∈ d.requests) (he : RequestEnd e request peer a') :
    d.Cause e t c a ↔ t = t' ∧ (∃ r, c = .ask peer r) ∧ a = a' := by
  constructor
  · intro hc
    cases hc with
    | taken => cases he
    | dial hd he' => cases he <;> cases he'
    | ask hr' he' =>
      cases he'.request_eq he
      obtain ⟨rfl, rfl⟩ := h.request_unique hr' hr
      exact ⟨rfl, ⟨_, rfl⟩, (he'.unique he).2⟩
    | closed => cases he
    | late => cases he
  · rintro ⟨rfl, ⟨r, rfl⟩, rfl⟩
    exact .ask hr he

theorem Inv.mem_unanswered_rest {last : Nat} {rest : List (Nat × Command)} (h : d.Inv cs)
    (hq : d.queue = (last, c) :: rest) :
    t ∈ { d with queue := rest }.unanswered ↔ t ∈ d.unanswered ∧ t ≠ last := by
  have hperm : d.unanswered.Perm (last :: { d with queue := rest }.unanswered) := by
    simp only [unanswered, hq, List.map_cons]
    exact List.perm_middle
  have hlast := (List.nodup_cons.1 (hperm.nodup_iff.1 (List.nodup_append.1 h.nodup).1)).1
  rw [hperm.mem_iff, List.mem_cons]
  constructor
  · intro ht
    exact ⟨.inr ht, fun heq => hlast (heq ▸ ht)⟩
  · rintro ⟨ht, hne⟩
    exact ht.resolve_left hne

/-- **A move gives exactly the answers that it has a cause for.** -/
theorem Move.mem_answers (hm : d.Move e d') (h : d.Inv cs) :
    (t, a) ∈ d'.answers ↔
      (t, a) ∈ d.answers ∨ ∃ c, (cs ++ commands [e])[t]? = some c ∧ d.Cause e t c a := by
  cases hm with
  | foreign he hn => simp [he.not_cause]
  | queue hs => simp [cause_submit, hs]
  | late hs =>
    rw [List.mem_cons, or_comm]
    refine or_congr_right ⟨fun heq => ?_, ?_⟩
    · cases heq
      exact ⟨_, by simp [h.submitted, commands], .late hs⟩
    · rintro ⟨c, -, hc⟩
      obtain ⟨-, rfl, -, rfl⟩ := cause_submit.1 hc
      rfl
  | @dial t' address rest hq =>
    have hnone : ¬AtOnce none (.dial address) a := nofun
    simp [cause_take hq, hnone]
  | @ask refusal t' peer r rest hq =>
    have hnone : ¬AtOnce refusal (.ask peer r) a := nofun
    simp [cause_take hq, hnone]
  | reply hq ha hc hn =>
    rw [List.mem_cons, or_comm]
    refine or_congr_right ⟨fun heq => ?_, ?_⟩
    · cases heq
      exact ⟨_, known_append (h.queue _ (hq ▸ List.mem_cons_self)) _,
        (cause_take hq).2 (.inl ⟨rfl, rfl, ha⟩)⟩
    · rintro ⟨c', -, hc'⟩
      rcases (cause_take hq).1 hc' with ⟨rfl, rfl, ha'⟩ | ⟨hshut, -⟩
      · rw [ha'.unique ha]
      · exact absurd hshut hc
  | @shutdown refusal last rest hq =>
    rw [List.mem_append, List.mem_cons, or_comm, or_assoc, or_comm, or_assoc]
    refine or_congr_right ⟨?_, ?_⟩
    · rintro (hmem | heq)
      · obtain ⟨t', ht', heq⟩ := List.mem_map.1 hmem
        cases heq
        obtain ⟨ht, hne⟩ := (h.mem_unanswered_rest hq).1 ht'
        have hc := List.getElem?_eq_getElem (h.lt_of_mem_unanswered ht)
        exact ⟨_, known_append hc _, (cause_take hq).2 (.inr ⟨rfl, ht, hne, rfl⟩)⟩
      · cases heq
        exact ⟨_, known_append (h.queue _ (hq ▸ List.mem_cons_self)) _,
          (cause_take hq).2 (.inl ⟨rfl, rfl, .stopped⟩)⟩
    · rintro ⟨c, -, hc⟩
      rcases (cause_take hq).1 hc with ⟨rfl, rfl, ha⟩ | ⟨-, ht, hne, rfl⟩
      · cases ha
        exact .inr rfl
      · exact .inl (List.mem_map_of_mem ((h.mem_unanswered_rest hq).2 ⟨ht, hne⟩))
  | endDial hd he =>
    rw [List.mem_cons, or_comm]
    refine or_congr_right ⟨fun heq => ?_, ?_⟩
    · cases heq
      obtain ⟨-, address, hc⟩ := h.dials _ hd
      exact ⟨_, known_append hc _, .dial hd he⟩
    · rintro ⟨c, -, hc⟩
      obtain ⟨rfl, -, rfl⟩ := (cause_dialEnd h hd he).1 hc
      rfl
  | endRequest hr he =>
    rw [List.mem_cons, or_comm]
    refine or_congr_right ⟨fun heq => ?_, ?_⟩
    · cases heq
      obtain ⟨-, r, hc⟩ := h.requests _ hr
      exact ⟨_, known_append hc _, .ask hr he⟩
    · rintro ⟨c, -, hc⟩
      obtain ⟨rfl, -, rfl⟩ := (cause_requestEnd h hr he).1 hc
      rfl

theorem Move.answers_subset (hm : d.Move e d') (h : d.Inv cs) : d.answers ⊆ d'.answers :=
  fun _ ha => (hm.mem_answers h).2 (.inl ha)

theorem Move.eq_of_foreign (hm : d.Move e d') (he : d.Foreign e) :
    d' = { d with nextConnection := d'.nextConnection } := by
  cases hm with
  | foreign => rfl
  | queue | late =>
    cases he with
    | connection he => cases he
    | request he => cases he
  | dial hq | ask hq | reply hq | shutdown hq => cases hq.symm.trans he.queue_eq_nil
  | endDial hd he' =>
    cases he with
    | connection he h => exact absurd (he'.unique he).1 (h _ hd)
    | request he => cases he <;> cases he'
    | _ => cases he'
  | endRequest hr he' =>
    cases he with
    | connection he => cases he <;> cases he'
    | request he h => exact absurd (he'.request_eq he) (h _ hr)
    | _ => cases he'

/-! ## What is under way -/

theorem Move.take_dial {address : Multiaddr} {rest : List (Nat × Command)}
    (hm : d.Move (.take none) d') (hq : d.queue = (t, .dial address) :: rest) :
    d' = { d with
      queue := rest
      nextConnection := d.nextConnection + 1
      dials := (d.nextConnection, t) :: d.dials } := by
  cases hm with
  | foreign he hn => cases hq.symm.trans he.queue_eq_nil
  | dial hq' => cases hq.symm.trans hq'; rfl
  | ask hq' => cases hq.symm.trans hq'
  | reply hq' ha => cases hq.symm.trans hq'; cases ha
  | shutdown hq' => cases hq.symm.trans hq'
  | endDial hd he => cases he
  | endRequest hr he => cases he

theorem Move.take_ask {refusal : Option String} {peer : PeerId} {r : Request}
    {rest : List (Nat × Command)} (hm : d.Move (.take refusal) d')
    (hq : d.queue = (t, .ask peer r) :: rest) :
    d' = { d with
      queue := rest
      nextRequest := d.nextRequest + 1
      requests := ⟨d.nextRequest, peer, t⟩ :: d.requests } := by
  cases hm with
  | foreign he hn => cases hq.symm.trans he.queue_eq_nil
  | dial hq' => cases hq.symm.trans hq'
  | ask hq' => cases hq.symm.trans hq'; rfl
  | reply hq' ha => cases hq.symm.trans hq'; cases ha
  | shutdown hq' => cases hq.symm.trans hq'
  | endDial hd he => cases he
  | endRequest hr he => cases he

/-- A dial goes out, and it stays under way until it is answered. -/
theorem Move.mem_dials {connection : Nat} (hm : d.Move e d') (h : d.Inv cs) :
    (connection, t) ∈ d'.dials ↔
      ((connection, t) ∈ d.dials ∨ e = .take none ∧ d.nextConnection = connection ∧
        ∃ address, d.queue.head? = some (t, .dial address)) ∧ ∀ a, (t, a) ∉ d'.answers := by
  constructor
  · intro hmem
    refine ⟨?_, fun a => (hm.inv h).not_answered (mem_unanswered_of_dials hmem)⟩
    cases hm with
    | dial hq =>
      rcases List.mem_cons.1 hmem with heq | hmem
      · cases heq
        exact .inr ⟨rfl, rfl, _, by rw [hq]; rfl⟩
      · exact .inl hmem
    | shutdown hq => cases hmem
    | endDial hd he => exact .inl (List.mem_of_mem_filter hmem)
    | _ => exact .inl hmem
  · rintro ⟨hd | ⟨rfl, rfl, address, hq⟩, hnone⟩
    · cases hm with
      | dial hq => exact List.mem_cons_of_mem _ hd
      | @shutdown refusal last rest hq =>
        have ht : t ∈ { d with queue := rest }.unanswered := mem_unanswered_of_dials hd
        exact absurd (List.mem_append_left _ (List.mem_map_of_mem ht)) (hnone _)
      | @endDial e connection' t' a hd' he =>
        refine List.mem_filter.2 ⟨hd, ?_⟩
        rw [bne_iff_ne]
        rintro rfl
        cases h.dial_unique hd hd'
        exact hnone a List.mem_cons_self
      | _ => exact hd
    · obtain ⟨rest, hq⟩ := List.head?_eq_some_iff.1 hq
      rw [hm.take_dial hq]
      exact List.mem_cons_self

/-- A request goes out, and it stays under way until it is answered. -/
theorem Move.mem_requests {request : Nat} {peer : PeerId} (hm : d.Move e d') (h : d.Inv cs) :
    ⟨request, peer, t⟩ ∈ d'.requests ↔
      (⟨request, peer, t⟩ ∈ d.requests ∨ (∃ refusal, e = .take refusal) ∧
        d.nextRequest = request ∧ ∃ r, d.queue.head? = some (t, .ask peer r)) ∧
        ∀ a, (t, a) ∉ d'.answers := by
  constructor
  · intro hmem
    refine ⟨?_, fun a => (hm.inv h).not_answered (mem_unanswered_of_requests hmem)⟩
    cases hm with
    | ask hq =>
      rcases List.mem_cons.1 hmem with heq | hmem
      · cases heq
        exact .inr ⟨⟨_, rfl⟩, rfl, _, by rw [hq]; rfl⟩
      · exact .inl hmem
    | shutdown hq => cases hmem
    | endRequest hr he => exact .inl (List.mem_of_mem_filter hmem)
    | _ => exact .inl hmem
  · rintro ⟨hr | ⟨⟨refusal, rfl⟩, rfl, r, hq⟩, hnone⟩
    · cases hm with
      | ask hq => exact List.mem_cons_of_mem _ hr
      | @shutdown refusal last rest hq =>
        have ht : t ∈ { d with queue := rest }.unanswered := mem_unanswered_of_requests hr
        exact absurd (List.mem_append_left _ (List.mem_map_of_mem ht)) (hnone _)
      | @endRequest e request' t' peer' a hr' he =>
        refine List.mem_filter.2 ⟨hr, ?_⟩
        rw [bne_iff_ne]
        rintro rfl
        obtain ⟨rfl, rfl⟩ := h.request_unique hr hr'
        exact hnone a List.mem_cons_self
      | _ => exact hr
    · obtain ⟨rest, hq⟩ := List.head?_eq_some_iff.1 hq
      rw [hm.take_ask hq]
      exact List.mem_cons_self

/-! ## What never comes back -/

/-- What is settled on a desk, for all desks after it: numbers that were given away, and tickets
that are not in the queue. -/
structure Leads (d d' : Desk) : Prop where
  submitted : d.submitted ≤ d'.submitted
  connections : d.nextConnection ≤ d'.nextConnection
  requests : d.nextRequest ≤ d'.nextRequest
  queue : ∀ x ∈ d'.queue, x ∈ d.queue ∨ d.submitted ≤ x.1

theorem Leads.refl (d : Desk) : d.Leads d :=
  ⟨Nat.le_refl _, Nat.le_refl _, Nat.le_refl _, fun _ => .inl⟩

theorem Leads.trans {d'' : Desk} (h : d.Leads d') (h' : d'.Leads d'') : d.Leads d'' where
  submitted := h.submitted.trans h'.submitted
  connections := h.connections.trans h'.connections
  requests := h.requests.trans h'.requests
  queue := fun x hx => by
    rcases h'.queue x hx with hx | hx
    · exact h.queue x hx
    · exact .inr (h.submitted.trans hx)

theorem Move.leads (hm : d.Move e d') : d.Leads d' := by
  cases hm with
  | foreign he hn => exact ⟨Nat.le_refl _, hn, Nat.le_refl _, fun _ => .inl⟩
  | queue hs =>
    refine ⟨Nat.le_succ _, Nat.le_refl _, Nat.le_refl _, fun x hx => ?_⟩
    rcases List.mem_append.1 hx with hx | hx
    · exact .inl hx
    · exact .inr (by rw [List.mem_singleton.1 hx])
  | late hs => exact ⟨Nat.le_succ _, Nat.le_refl _, Nat.le_refl _, fun _ => .inl⟩
  | dial hq =>
    exact ⟨Nat.le_refl _, Nat.le_succ _, Nat.le_refl _,
      fun _ hx => .inl (hq ▸ List.mem_cons_of_mem _ hx)⟩
  | ask hq =>
    exact ⟨Nat.le_refl _, Nat.le_refl _, Nat.le_succ _,
      fun _ hx => .inl (hq ▸ List.mem_cons_of_mem _ hx)⟩
  | reply hq ha hc hn =>
    exact ⟨Nat.le_refl _, hn, Nat.le_refl _, fun _ hx => .inl (hq ▸ List.mem_cons_of_mem _ hx)⟩
  | shutdown hq => exact ⟨Nat.le_refl _, Nat.le_refl _, Nat.le_refl _, nofun⟩
  | endDial hd he => exact ⟨Nat.le_refl _, Nat.le_refl _, Nat.le_refl _, fun _ => .inl⟩
  | endRequest hr he => exact ⟨Nat.le_refl _, Nat.le_refl _, Nat.le_refl _, fun _ => .inl⟩

/-- A command that is taken leaves the queue. -/
theorem Move.take_queue {refusal : Option String} (hm : d.Move (.take refusal) d') (h : d.Inv cs)
    (hq : d.queue.head? = some (t, c)) : ∀ x ∈ d'.queue, x.1 ≠ t := by
  obtain ⟨rest, hq⟩ := List.head?_eq_some_iff.1 hq
  have hrest : ∀ x ∈ rest, x.1 ≠ t := by
    have hnodup := (List.nodup_append.1 (List.nodup_append.1 h.nodup).1).2.1
    rw [hq, List.map_cons] at hnodup
    rintro x hx rfl
    exact (List.nodup_cons.1 hnodup).1 (List.mem_map.2 ⟨x, hx, rfl⟩)
  cases hm with
  | foreign he hn => cases hq.symm.trans he.queue_eq_nil
  | dial hq' => cases hq.symm.trans hq'; exact hrest
  | ask hq' => cases hq.symm.trans hq'; exact hrest
  | reply hq' => cases hq.symm.trans hq'; exact hrest
  | shutdown hq' => exact nofun
  | endDial hd he => cases he
  | endRequest hr he => cases he

/-- The event `e` met the desk `d`, and `d'` is a desk of later. -/
def Precedes (d : Desk) (e : Event) (d' : Desk) : Prop :=
  ∃ cs d₁, d.Inv cs ∧ d.Move e d₁ ∧ d₁.Leads d'

theorem Precedes.head_ne {refusal : Option String} (hp : d.Precedes (.take refusal) d')
    (hq : d.queue.head? = some (t, c)) (c' : Command) : d'.queue.head? ≠ some (t, c') := by
  obtain ⟨cs, d₁, h, hm, hl⟩ := hp
  intro hq'
  rcases hl.queue _ (List.mem_of_head? hq') with hmem | hle
  · exact hm.take_queue h hq _ hmem rfl
  · have hlt := h.lt_of_mem_unanswered (mem_unanswered_of_queue (List.mem_of_head? hq))
    have := hm.leads.submitted
    have := h.submitted
    omega

theorem Precedes.connection_lt {address : Multiaddr} (hp : d.Precedes (.take none) d')
    (hq : d.queue.head? = some (t, .dial address)) : d.nextConnection < d'.nextConnection := by
  obtain ⟨cs, d₁, -, hm, hl⟩ := hp
  obtain ⟨rest, hq⟩ := List.head?_eq_some_iff.1 hq
  have hnext : d₁.nextConnection = d.nextConnection + 1 := by rw [hm.take_dial hq]
  have := hl.connections
  omega

theorem Precedes.request_lt {refusal : Option String} {peer : PeerId} {r : Request}
    (hp : d.Precedes (.take refusal) d') (hq : d.queue.head? = some (t, .ask peer r)) :
    d.nextRequest < d'.nextRequest := by
  obtain ⟨cs, d₁, -, hm, hl⟩ := hp
  obtain ⟨rest, hq⟩ := List.head?_eq_some_iff.1 hq
  have hnext : d₁.nextRequest = d.nextRequest + 1 := by rw [hm.take_ask hq]
  have := hl.requests
  omega

end Desk

/-! ## The history of a run -/

section

variable {s₀ : Loop} {own : PeerId} {ttl : Time} {n : Nat} {d₁ d₂ : Desk} {e₁ e₂ : Event}

theorem happens_concat :
    Happens s₀ (events ++ [e]) d e₁ ↔
      Happens s₀ events d e₁ ∨ d = (s₀.run events).desk ∧ e₁ = e := by
  constructor
  · rintro ⟨before, hp, rfl⟩
    rcases List.prefix_concat_iff.1 hp with heq | hp
    · obtain ⟨rfl, he⟩ := List.append_inj' heq rfl
      exact .inr ⟨rfl, List.singleton_inj.1 he⟩
    · exact .inl ⟨before, hp, rfl⟩
  · rintro (⟨before, hp, rfl⟩ | ⟨rfl, rfl⟩)
    · exact ⟨before, hp.trans (List.prefix_append _ _), rfl⟩
    · exact ⟨events, List.prefix_refl _, rfl⟩

theorem not_happens_nil : ¬Happens s₀ [] d e := by
  simp [Happens]

theorem Happens.extend {before : List Event} (h : Happens s₀ before d e)
    (hp : before <+: events) : Happens s₀ events d e := by
  obtain ⟨first, hfirst, hd⟩ := h
  exact ⟨first, hfirst.trans hp, hd⟩

/-- A command that something is the cause to answer has been handed in by then. -/
theorem Happens.cause_lt {c : Command} (h : Happens (fresh own ttl n) events d e)
    (hc : d.Cause e t c a) : t < (commands events).length := by
  obtain ⟨before, hp, rfl⟩ := h
  have hlt := hc.lt (inv_run own ttl n before)
  rw [← commands_append] at hlt
  exact hlt.trans_le (hp.filterMap _).length_le

/-- **An answer has a cause in the history, and every cause gives its answer.** -/
theorem answers_iff (own : PeerId) (ttl : Time) (n : Nat) (events : List Event) (t : Nat)
    (a : Answer) :
    (t, a) ∈ ((fresh own ttl n).run events).answers ↔
      ∃ d e c, Happens (fresh own ttl n) events d e ∧ (commands events)[t]? = some c ∧
        d.Cause e t c a := by
  induction events using List.reverseRecOn with
  | nil =>
    refine iff_of_false nofun ?_
    rintro ⟨d, e, c, h, -⟩
    exact not_happens_nil h
  | append_singleton events e ih =>
    have hinv := inv_run own ttl n events
    rw [run_concat]
    refine ((step_move hinv e).mem_answers hinv).trans ⟨?_, ?_⟩
    · rintro (ha | ⟨c, hc, hcause⟩)
      · obtain ⟨d, e', c, h, hc, hcause⟩ := ih.1 ha
        exact ⟨d, e', c, happens_concat.2 (.inl h), commands_append .. ▸ known_append hc _, hcause⟩
      · exact ⟨_, e, c, happens_concat.2 (.inr ⟨rfl, rfl⟩), commands_append .. ▸ hc, hcause⟩
    · rintro ⟨d, e', c, h, hc, hcause⟩
      rw [commands_append] at hc
      rcases happens_concat.1 h with h | ⟨rfl, rfl⟩
      · rw [List.getElem?_append_left (h.cause_lt hcause)] at hc
        exact .inl (ih.2 ⟨d, e', c, h, hc, hcause⟩)
      · exact .inr ⟨c, hc, hcause⟩

theorem dialed_concat {connection : Nat} :
    Dialed s₀ (events ++ [e]) connection t ↔
      Dialed s₀ events connection t ∨ e = .take none ∧
        (s₀.run events).nextConnection = connection ∧
          ∃ address, (s₀.run events).queue.head? = some (t, .dial address) := by
  constructor
  · rintro ⟨d, address, ⟨h, hq⟩, hn⟩
    rcases happens_concat.1 h with h | ⟨rfl, rfl⟩
    · exact .inl ⟨d, address, ⟨h, hq⟩, hn⟩
    · exact .inr ⟨rfl, hn, address, hq⟩
  · rintro (⟨d, address, ⟨h, hq⟩, hn⟩ | ⟨rfl, hn, address, hq⟩)
    · exact ⟨d, address, ⟨happens_concat.2 (.inl h), hq⟩, hn⟩
    · exact ⟨_, address, ⟨happens_concat.2 (.inr ⟨rfl, rfl⟩), hq⟩, hn⟩

theorem asked_concat {request : Nat} {peer : PeerId} :
    Asked s₀ (events ++ [e]) request peer t ↔
      Asked s₀ events request peer t ∨ (∃ refusal, e = .take refusal) ∧
        (s₀.run events).nextRequest = request ∧
          ∃ r, (s₀.run events).queue.head? = some (t, .ask peer r) := by
  constructor
  · rintro ⟨d, refusal, r, ⟨h, hq⟩, hn⟩
    rcases happens_concat.1 h with h | ⟨rfl, rfl⟩
    · exact .inl ⟨d, refusal, r, ⟨h, hq⟩, hn⟩
    · exact .inr ⟨⟨refusal, rfl⟩, hn, r, hq⟩
  · rintro (⟨d, refusal, r, ⟨h, hq⟩, hn⟩ | ⟨⟨refusal, rfl⟩, hn, r, hq⟩)
    · exact ⟨d, refusal, r, ⟨happens_concat.2 (.inl h), hq⟩, hn⟩
    · exact ⟨_, refusal, r, ⟨happens_concat.2 (.inr ⟨rfl, rfl⟩), hq⟩, hn⟩

/-- **The dials under way** are those that went out and have no answer yet. -/
theorem dials_iff (own : PeerId) (ttl : Time) (n : Nat) (events : List Event)
    (connection t : Nat) :
    (connection, t) ∈ ((fresh own ttl n).run events).dials ↔
      Dialed (fresh own ttl n) events connection t ∧
        ∀ a, (t, a) ∉ ((fresh own ttl n).run events).answers := by
  induction events using List.reverseRecOn with
  | nil =>
    refine iff_of_false nofun ?_
    rintro ⟨⟨d, address, ⟨h, -⟩, -⟩, -⟩
    exact not_happens_nil h
  | append_singleton events e ih =>
    have hinv := inv_run own ttl n events
    have hmove := step_move hinv e
    rw [run_concat, dialed_concat]
    refine (hmove.mem_dials hinv).trans (and_congr_left fun hnone => or_congr_left ?_)
    have hbefore : ∀ a, (t, a) ∉ ((fresh own ttl n).run events).answers :=
      fun a ha => hnone a (hmove.answers_subset hinv ha)
    exact ih.trans (and_iff_left hbefore)

/-- **The requests under way** are those that went out and have no answer yet. -/
theorem requests_iff (own : PeerId) (ttl : Time) (n : Nat) (events : List Event)
    (request : Nat) (peer : PeerId) (t : Nat) :
    ⟨request, peer, t⟩ ∈ ((fresh own ttl n).run events).requests ↔
      Asked (fresh own ttl n) events request peer t ∧
        ∀ a, (t, a) ∉ ((fresh own ttl n).run events).answers := by
  induction events using List.reverseRecOn with
  | nil =>
    refine iff_of_false nofun ?_
    rintro ⟨⟨d, refusal, r, ⟨h, -⟩, -⟩, -⟩
    exact not_happens_nil h
  | append_singleton events e ih =>
    have hinv := inv_run own ttl n events
    have hmove := step_move hinv e
    rw [run_concat, asked_concat]
    refine (hmove.mem_requests hinv).trans (and_congr_left fun hnone => or_congr_left ?_)
    have hbefore : ∀ a, (t, a) ∉ ((fresh own ttl n).run events).answers :=
      fun a ha => hnone a (hmove.answers_subset hinv ha)
    exact ih.trans (and_iff_left hbefore)

theorem leads_run (own : PeerId) (ttl : Time) (n : Nat) (before later : List Event) :
    ((fresh own ttl n).run before).desk.Leads ((fresh own ttl n).run (before ++ later)).desk := by
  induction later using List.reverseRecOn with
  | nil => rw [List.append_nil]; exact .refl _
  | append_singleton later e ih =>
    rw [← List.append_assoc, run_concat]
    exact ih.trans (step_move (inv_run own ttl n _) e).leads

theorem run_precedes {before before' : List Event} (h : before ++ [e] <+: before') :
    ((fresh own ttl n).run before).desk.Precedes e ((fresh own ttl n).run before').desk := by
  obtain ⟨later, rfl⟩ := h
  have hinv := inv_run own ttl n before
  refine ⟨_, _, hinv, step_move hinv e, ?_⟩
  rw [← run_concat]
  exact leads_run own ttl n _ later

/-- Of two moments of a run, one comes first, if they are not the same. -/
theorem Happens.order (h₁ : Happens (fresh own ttl n) events d₁ e₁)
    (h₂ : Happens (fresh own ttl n) events d₂ e₂) :
    d₁ = d₂ ∨ d₁.Precedes e₁ d₂ ∨ d₂.Precedes e₂ d₁ := by
  obtain ⟨before₁, hp₁, rfl⟩ := h₁
  obtain ⟨before₂, hp₂, rfl⟩ := h₂
  rcases List.prefix_or_prefix_of_prefix hp₁ hp₂ with hp | hp
  · rcases List.prefix_concat_iff.1 hp with heq | hp
    · exact .inl (by rw [(List.append_inj' heq rfl).1])
    · exact .inr (.inl (run_precedes hp))
  · rcases List.prefix_concat_iff.1 hp with heq | hp
    · exact .inl (by rw [(List.append_inj' heq rfl).1])
    · exact .inr (.inr (run_precedes hp))

/-- A command is taken once. -/
theorem Taken.unique {refusal refusal' : Option String} {c c' : Command}
    (h₁ : Taken (fresh own ttl n) events d₁ refusal t c)
    (h₂ : Taken (fresh own ttl n) events d₂ refusal' t c') : d₁ = d₂ := by
  rcases h₁.1.order h₂.1 with heq | hp | hp
  · exact heq
  · exact absurd h₂.2 (hp.head_ne h₁.2 c')
  · exact absurd h₁.2 (hp.head_ne h₂.2 c)

/-- A dial has one connection, and a connection is that of one dial. -/
theorem Dialed.unique {connection connection' t' : Nat}
    (h : Dialed (fresh own ttl n) events connection t)
    (h' : Dialed (fresh own ttl n) events connection' t') : connection = connection' ↔ t = t' := by
  obtain ⟨d, address, h, rfl⟩ := h
  obtain ⟨d', address', h', rfl⟩ := h'
  constructor
  · intro heq
    rcases h.1.order h'.1 with rfl | hp | hp
    · exact congrArg Prod.fst (Option.some.inj (h.2.symm.trans h'.2))
    · exact absurd heq (hp.connection_lt h.2).ne
    · exact absurd heq.symm (hp.connection_lt h'.2).ne
  · rintro rfl
    rw [h.unique h']

/-- A question has one request, and a request is that of one question. -/
theorem Asked.unique {request request' t' : Nat} {peer peer' : PeerId}
    (h : Asked (fresh own ttl n) events request peer t)
    (h' : Asked (fresh own ttl n) events request' peer' t') : request = request' ↔ t = t' := by
  obtain ⟨d, refusal, r, h, rfl⟩ := h
  obtain ⟨d', refusal', r', h', rfl⟩ := h'
  constructor
  · intro heq
    rcases h.1.order h'.1 with rfl | hp | hp
    · exact congrArg Prod.fst (Option.some.inj (h.2.symm.trans h'.2))
    · exact absurd heq (hp.request_lt h.2).ne
    · exact absurd heq.symm (hp.request_lt h'.2).ne
  · rintro rfl
    rw [h.unique h']

end

/-! ## The main result -/

theorem answer?_eq_some_iff (h : s.desk.Inv cs) : s.answer? t = some a ↔ (t, a) ∈ s.answers := by
  unfold answer?
  rw [List.lookup_eq_some_iff]
  constructor
  · rintro ⟨before, after, heq, -⟩
    simp [heq]
  · intro ha
    obtain ⟨before, after, heq⟩ := List.append_of_mem ha
    refine ⟨before, after, heq, fun x hx => ?_⟩
    have hnodup := (List.nodup_append.1 h.nodup).2.1
    rw [show s.desk.answers = before ++ (t, a) :: after from heq, List.map_append] at hnodup
    have hne := (List.nodup_append.1 hnodup).2.2 x.1 (List.mem_map_of_mem hx) t List.mem_cons_self
    simpa using hne.symm

theorem answer?_eq_none_iff (h : s.desk.Inv cs) : s.answer? t = none ↔ ∀ a, (t, a) ∉ s.answers := by
  rw [Option.eq_none_iff_forall_not_mem]
  exact forall_congr' fun a => not_congr (answer?_eq_some_iff h)

/-- **Every command gets one answer, and it is its own.** Whatever happens to a loop, each command
handed in is queued, under way or answered, only one of these and once. A dial is under way as
the connection that was opened for it and nothing else, a request as the one that was sent. An
answer stays, and it is given for exactly the reasons in `Cause`; what nobody waits for answers
nobody. Once the loop has stopped, nothing waits and every command has its answer. -/
theorem commands_spec (own : PeerId) (ttl : Time) (n : Nat) (events : List Event) :
    let s := (fresh own ttl n).run events
    (s.queue.map (·.1) ++ s.dials.map (·.2) ++ s.requests.map (·.ticket) ++
      s.answers.map (·.1)).Perm (List.range (commands events).length) ∧
    (∀ t c, (t, c) ∈ s.queue → (commands events)[t]? = some c) ∧
    (∀ connection t, (connection, t) ∈ s.dials ↔
      Dialed (fresh own ttl n) events connection t ∧ s.answer? t = none) ∧
    (∀ connection connection' t t', Dialed (fresh own ttl n) events connection t →
      Dialed (fresh own ttl n) events connection' t' → (connection = connection' ↔ t = t')) ∧
    (∀ request peer t, ⟨request, peer, t⟩ ∈ s.requests ↔
      Asked (fresh own ttl n) events request peer t ∧ s.answer? t = none) ∧
    (∀ request request' peer peer' t t', Asked (fresh own ttl n) events request peer t →
      Asked (fresh own ttl n) events request' peer' t' → (request = request' ↔ t = t')) ∧
    (∀ t a, s.answer? t = some a ↔ ∃ d e c, Happens (fresh own ttl n) events d e ∧
      (commands events)[t]? = some c ∧ d.Cause e t c a) ∧
    (∀ before t a, before <+: events → ((fresh own ttl n).run before).answer? t = some a →
      s.answer? t = some a) ∧
    (∀ e, s.desk.Foreign e →
      (s.step e).desk = { s.desk with nextConnection := (s.step e).nextConnection }) ∧
    (s.stopped = true → s.queue = [] ∧ s.dials = [] ∧ s.requests = [] ∧
      ∀ t < (commands events).length, ∃ a, s.answer? t = some a) := by
  intro s
  have h : s.desk.Inv (commands events) := inv_run own ttl n events
  have hanswers (t : Nat) (a : Answer) : s.answer? t = some a ↔ _ :=
    (answer?_eq_some_iff h).trans (answers_iff own ttl n events t a)
  have hnone (t : Nat) : s.answer? t = none ↔ _ := answer?_eq_none_iff h
  refine ⟨?_, fun t c => h.queue (t, c), fun connection t => ?_, fun _ _ _ _ => Dialed.unique,
    fun request peer t => ?_, fun _ _ _ _ _ _ => Asked.unique, hanswers, fun before t a hb ha => ?_,
    fun e he => (step_move h e).eq_of_foreign he, fun hs => ?_⟩
  · refine List.Perm.trans (.append_right _ ?_) h.places
    rw [List.append_assoc]
    exact List.perm_append_comm
  · rw [hnone]
    exact dials_iff own ttl n events connection t
  · rw [hnone]
    exact requests_iff own ttl n events request peer t
  · have hbefore := (answer?_eq_some_iff (inv_run own ttl n before)).1 ha
    obtain ⟨d, e, c, hh, hc, hcause⟩ := (answers_iff own ttl n before t a).1 hbefore
    obtain ⟨later, rfl⟩ := hb
    exact (hanswers t a).2
      ⟨d, e, c, hh.extend (List.prefix_append _ _), commands_append .. ▸ known_append hc _, hcause⟩
  · obtain ⟨hq, hd, hr⟩ := h.quiet hs
    refine ⟨hq, hd, hr, fun t ht => ?_⟩
    have hmem := h.places.symm.subset (List.mem_range.2 ht)
    simp only [Desk.unanswered, hq, hd, hr, List.map_nil, List.nil_append] at hmem
    obtain ⟨⟨t, a⟩, ha, rfl⟩ := List.mem_map.1 hmem
    exact ⟨a, (answer?_eq_some_iff h).2 ha⟩

/-- Only the failure of its own connection ends a dial. -/
example (own : PeerId) (address : Multiaddr) :
    ((fresh own 0 0).run [.submit (.dial address), .take none, .dialFailed 1 "unreachable",
      .dialFailed 0 "refused"]).answer? 0 = some (.failed (.dial "refused")) := rfl

end Loop

end Quorum
