import Mathlib
import Quorum.Proofs.Network.Desk

/-!
# Requests of other peers

A run begins when a request is received and is known by its place among them. `Service` is the
part of a loop that serves runs, and `Turn` says once what a step of a running loop can do to it
(`step_turn`). `Served` accounts for all runs so far: each is under way, or with its task, or has
been handed over, and what waits for it or was sent for it is the response to its own request
with its own result. Every turn keeps it (`Turn.served`), so it holds at every moment of a loop
that runs (`inbound_spec`), however many runs there are and in whatever order they end.
-/

namespace Quorum

namespace Loop

/-! ## What has happened to runs -/

/-- The requests received; their places are their runs. -/
def received (events : List Event) : List Inbound :=
  events.filterMap fun
    | .received _ i => some i
    | _ => none

/-- How the run ends for the first time, once it is among the `started` ones. -/
def resultFrom (run : Nat) : Nat → List Event → Option (Except BackendError Json)
  | _, [] => none
  | started, .received _ _ :: later => resultFrom run (started + 1) later
  | started, .finished r result :: later =>
    if r = run ∧ run < started then some result else resultFrom run started later
  | started, _ :: later => resultFrom run started later

/-- The result of a run that has ended. -/
def result? (events : List Event) (run : Nat) : Option (Except BackendError Json) :=
  resultFrom run 0 events

/-- What has to be sent for a run that has ended, and on which channel. -/
def delivery? (events : List Event) (run : Nat) : Option Delivery :=
  match (received events)[run]?, result? events run with
  | some i, some (.ok value) => some ⟨i.channel, .output i.request.id value⟩
  | some i, some (.error e) => some ⟨i.channel, .refusal i.request.id e.message⟩
  | _, _ => none

/-- The part of a loop that serves other peers. -/
structure Service where
  nextRun : Nat
  running : List (Nat × Inbound)
  waiting : List (Nat × Delivery)
  outbox : List Delivery
  sent : List Delivery

def service (s : Loop) : Service where
  nextRun := s.nextRun
  running := s.running
  waiting := s.waiting
  outbox := s.outbox
  sent := s.sent

namespace Service

/-- Events that no run has to do with, or that come too early or too late for theirs. -/
def Idle (v : Service) : Event → Prop
  | .received _ _ => False
  | .finished run _ => ∀ x ∈ v.running, x.1 ≠ run
  | .handOver run => (∀ x ∈ v.waiting, x.1 ≠ run) ∨ outboxSize ≤ v.outbox.length
  | .drain => v.outbox = []
  | _ => True

/-- What an event can do for the runs. -/
inductive Turn (v : Service) : Event → Service → Prop where
  | idle {e : Event} (he : v.Idle e) : Turn v e v
  | receive {peer : PeerId} {i : Inbound} :
      Turn v (.received peer i) { v with
        nextRun := v.nextRun + 1
        running := (v.nextRun, i) :: v.running }
  | finish {run : Nat} {result : Except BackendError Json} {i : Inbound}
      (h : (run, i) ∈ v.running) :
      Turn v (.finished run result) { v with
        running := v.running.filter (·.1 != run)
        waiting := (run, ⟨i.channel, Backend.respond i.request result⟩) :: v.waiting }
  | handOver {run : Nat} {d : Delivery} (h : (run, d) ∈ v.waiting)
      (hroom : v.outbox.length < outboxSize) :
      Turn v (.handOver run) { v with
        waiting := v.waiting.filter (·.1 != run)
        outbox := v.outbox ++ [d] }
  | drain {d : Delivery} {rest : List Delivery} (h : v.outbox = d :: rest) :
      Turn v .drain { v with outbox := rest, sent := d :: v.sent }

/-- Where the runs of `events` are, those in `order` having been handed over one after the
other. -/
structure Served (events : List Event) (order : List Nat) (v : Service) : Prop where
  count : v.nextRun = (received events).length
  /-- Every run is in exactly one place. -/
  places : (v.running.map (·.1) ++ v.waiting.map (·.1) ++ order).Perm
    (List.range (received events).length)
  running : ∀ x ∈ v.running, (received events)[x.1]? = some x.2 ∧ result? events x.1 = none
  waiting : ∀ x ∈ v.waiting, delivery? events x.1 = some x.2
  /-- What was sent, and then what waits to be sent, in the order in which it was handed over. -/
  handed : order.map (delivery? events) = (v.sent.reverse ++ v.outbox).map some
  room : v.outbox.length ≤ outboxSize

end Service

variable {s : Loop} {v v' : Service} {e : Event} {events : List Event} {order : List Nat}
  {run started : Nat}

/-! ## What a step does -/

theorem service_obey (s : Loop) (ticket : Nat) (refusal : Option String) (c : Command)
    (h : (s.obey ticket refusal c).stopped = false) :
    (s.obey ticket refusal c).service = s.service := by
  cases c with
  | dial address => cases refusal <;> rfl
  | ask peer r => rfl
  | publish data => cases refusal <;> rfl
  | shutdown => cases h

theorem service_take (s : Loop) (refusal : Option String) (h : (s.take refusal).stopped = false) :
    (s.take refusal).service = s.service := by
  unfold take at h ⊢
  split
  · rfl
  · rename_i hq
    rw [hq] at h
    exact service_obey _ _ _ _ h

theorem service_submit (s : Loop) (c : Command) : (s.submit c).service = s.service := by
  unfold submit
  dsimp only
  split <;> rfl

theorem service_discover (s : Loop) (peer : PeerId) (now : Time) :
    (s.discover peer now).service = s.service := by
  unfold discover
  split <;> rfl

theorem service_endDial (s : Loop) (connection : Nat) (a : Answer) :
    (s.endDial connection a).service = s.service := by
  unfold endDial
  split <;> rfl

theorem service_endRequest (s : Loop) (request : Nat) (a : Pending → Answer) :
    (s.endRequest request a).service = s.service := by
  unfold endRequest
  split <;> rfl

theorem Service.Idle.turn (he : v.Idle e) (h : v' = v) : v.Turn e v' := by
  rw [h]
  exact .idle he

theorem finish_turn (s : Loop) (run : Nat) (result : Except BackendError Json) :
    s.service.Turn (.finished run result) (s.finish run result).service := by
  unfold finish
  split
  · rename_i i hi
    obtain ⟨before, after, hrunning, -⟩ := List.lookup_eq_some_iff.1 hi
    exact .finish (show (run, i) ∈ s.running by simp [hrunning])
  · rename_i hnone
    refine .idle fun x hx heq => ?_
    have := List.lookup_eq_none_iff.1 hnone x hx
    simp [heq] at this

theorem handOver_turn (h : s.stopped = false) (run : Nat) :
    s.service.Turn (.handOver run) (s.handOver run).service := by
  unfold handOver
  split
  · rename_i d hd
    obtain ⟨before, after, hwaiting, -⟩ := List.lookup_eq_some_iff.1 hd
    rw [h]
    dsimp only
    rw [if_neg Bool.false_ne_true]
    split
    · rename_i hroom
      exact .handOver (show (run, d) ∈ s.waiting by simp [hwaiting]) hroom
    · rename_i hfull
      exact .idle (.inr (Nat.not_lt.1 hfull))
  · rename_i hnone
    refine .idle (.inl fun x hx heq => ?_)
    have := List.lookup_eq_none_iff.1 hnone x hx
    simp [heq] at this

theorem drain_turn (s : Loop) : s.service.Turn .drain s.drain.service := by
  unfold drain
  split
  · rename_i hnil
    exact .idle hnil
  · rename_i d rest hcons
    exact .drain hcons

/-- **Every step of a loop that goes on running is a turn.** -/
theorem step_turn (h : s.stopped = false) (h' : (s.step e).stopped = false) :
    s.service.Turn e (s.step e).service := by
  unfold step at h' ⊢
  rw [h, if_neg Bool.false_ne_true] at h' ⊢
  cases e with
  | submit c => exact Service.Idle.turn trivial (service_submit s c)
  | take refusal => exact Service.Idle.turn trivial (service_take s refusal h')
  | opened => exact .idle trivial
  | established connection peer now =>
    exact Service.Idle.turn trivial ((service_endDial ..).trans (service_discover ..))
  | dialFailed connection reason => exact Service.Idle.turn trivial (service_endDial ..)
  | sighted peer now => exact Service.Idle.turn trivial (service_discover ..)
  | answered request r => exact Service.Idle.turn trivial (service_endRequest ..)
  | requestFailed request reason => exact Service.Idle.turn trivial (service_endRequest ..)
  | received peer i => exact .receive
  | finished run result => exact finish_turn s run result
  | handOver run => exact handOver_turn h run
  | drain => exact drain_turn s
  | prune now => exact .idle trivial
  | explore known => exact .idle trivial

theorem stopped_submit (s : Loop) (c : Command) : (s.submit c).stopped = s.stopped := by
  unfold submit
  dsimp only
  split <;> rfl

/-- A loop that runs was running before. -/
theorem stopped_of_step (h : (s.step e).stopped = false) : s.stopped = false := by
  by_contra hs
  rw [Bool.not_eq_false] at hs
  have hstays : (s.step e).stopped = true := by
    unfold step
    rw [if_pos hs]
    cases e with
    | submit c => exact (stopped_submit s c).trans hs
    | finished run result => exact (congrArg Desk.stopped (desk_finish s run result)).trans hs
    | handOver run => exact (congrArg Desk.stopped (desk_handOver s run)).trans hs
    | _ => exact hs
  rw [hstays] at h
  cases h

/-! ## One more event -/

theorem received_append (events events' : List Event) :
    received (events ++ events') = received events ++ received events' :=
  List.filterMap_append

theorem resultFrom_concat (run started : Nat) (events : List Event) (e : Event) :
    resultFrom run started (events ++ [e]) = (resultFrom run started events).or
      (resultFrom run (started + (received events).length) [e]) := by
  fun_induction resultFrom run started events with
  | case1 started => rfl
  | case2 started peer i later ih =>
    rw [List.cons_append, resultFrom, ih, Nat.add_assoc, Nat.add_comm 1]
    rfl
  | case3 started r result later hended =>
    rw [List.cons_append, resultFrom, if_pos hended]
    rfl
  | case4 started r result later hnot ih =>
    rw [List.cons_append, resultFrom, if_neg hnot, ih]
    rfl
  | case5 started e' later hreceived hfinished ih =>
    have hnone : received (e' :: later) = received later := by
      cases e' with
      | received peer i => exact (hreceived peer i rfl).elim
      | _ => rfl
    rw [List.cons_append, resultFrom, ih, hnone]
    · exact hreceived
    · exact hfinished

theorem result?_concat (events : List Event) (e : Event) (run : Nat) :
    result? (events ++ [e]) run =
      (result? events run).or (resultFrom run (received events).length [e]) := by
  rw [result?, resultFrom_concat, Nat.zero_add]
  rfl

/-- One event ends a run only if it says so and the run has begun. -/
theorem resultFrom_singleton {result : Except BackendError Json} :
    resultFrom run started [e] = some result ↔ e = .finished run result ∧ run < started := by
  cases e with
  | finished r result' =>
    by_cases hr : r = run ∧ run < started
    · simp [resultFrom, hr]
    · rw [resultFrom, if_neg hr]
      constructor
      · nofun
      · rintro ⟨heq, hlt⟩
        cases heq
        exact absurd ⟨rfl, hlt⟩ hr
  | _ => simp [resultFrom]

theorem resultFrom_of_ne (h : ∀ result, e ≠ .finished run result) :
    resultFrom run started [e] = none :=
  Option.eq_none_iff_forall_ne_some.2 fun result hr => h result (resultFrom_singleton.1 hr).1

theorem result?_append {result : Except BackendError Json} (h : result? events run = some result)
    (e : Event) : result? (events ++ [e]) run = some result := by
  rw [result?_concat, h]
  rfl

theorem lt_of_result? {result : Except BackendError Json} (h : result? events run = some result) :
    run < (received events).length := by
  induction events using List.reverseRecOn with
  | nil => cases h
  | append_singleton events e ih =>
    rw [received_append, List.length_append]
    rw [result?_concat] at h
    rcases Option.or_eq_some_iff.1 h with h | ⟨-, h⟩
    · exact Nat.lt_add_right _ (ih h)
    · exact Nat.lt_add_right _ (resultFrom_singleton.1 h).2

theorem delivery?_eq_some {d : Delivery} : delivery? events run = some d ↔
    ∃ i result, (received events)[run]? = some i ∧ result? events run = some result ∧
      d = ⟨i.channel, Backend.respond i.request result⟩ := by
  unfold delivery?
  constructor
  · intro h
    split at h
    · rename_i i value hi hresult
      cases h
      exact ⟨i, .ok value, hi, hresult, rfl⟩
    · rename_i i error hi hresult
      cases h
      exact ⟨i, .error error, hi, hresult, rfl⟩
    · cases h
  · rintro ⟨i, result, hi, hresult, rfl⟩
    rw [hi, hresult]
    cases result <;> rfl

theorem delivery?_append {d : Delivery} (h : delivery? events run = some d) (e : Event) :
    delivery? (events ++ [e]) run = some d := by
  obtain ⟨i, result, hi, hresult, rfl⟩ := delivery?_eq_some.1 h
  refine delivery?_eq_some.2 ⟨i, result, ?_, result?_append hresult e, rfl⟩
  rw [received_append, List.getElem?_append_left (List.getElem?_eq_some_iff.1 hi).1, hi]

namespace Service

/-! ## The account -/

theorem Served.nodup (h : v.Served events order) :
    (v.running.map (·.1)).Nodup ∧ (v.waiting.map (·.1)).Nodup := by
  have hall := h.places.nodup_iff.2 List.nodup_range
  exact ⟨(List.nodup_append.1 (List.nodup_append.1 hall).1).1,
    (List.nodup_append.1 (List.nodup_append.1 hall).1).2.1⟩

/-- What was to be sent stays what is to be sent. -/
theorem Served.handed_append (h : v.Served events order) (e : Event) :
    order.map (delivery? (events ++ [e])) = (v.sent.reverse ++ v.outbox).map some := by
  rw [← h.handed]
  refine List.map_congr_left fun run hrun => ?_
  have hmem := List.mem_map_of_mem (f := delivery? events) hrun
  rw [h.handed] at hmem
  obtain ⟨d, -, hd⟩ := List.mem_map.1 hmem
  rw [← hd, delivery?_append hd.symm e]

/-- An event that begins no run and ends none that is under way. -/
theorem Served.extend (h : v.Served events order) (hnew : received [e] = [])
    (hrunning : ∀ x ∈ v.running, resultFrom x.1 (received events).length [e] = none) :
    v.Served (events ++ [e]) order := by
  have hreceived : received (events ++ [e]) = received events := by
    rw [received_append, hnew, List.append_nil]
  refine ⟨?_, ?_, fun x hx => ?_, fun x hx => delivery?_append (h.waiting x hx) e,
    h.handed_append e, h.room⟩
  · rw [hreceived, h.count]
  · rw [hreceived]
    exact h.places
  · obtain ⟨hi, hnone⟩ := h.running x hx
    rw [hreceived, result?_concat, hnone, hrunning x hx]
    exact ⟨hi, rfl⟩

theorem served_receive {peer : PeerId} {i : Inbound} (h : v.Served events order) :
    { v with nextRun := v.nextRun + 1, running := (v.nextRun, i) :: v.running }.Served
      (events ++ [Event.received peer i]) order := by
  have hreceived : received (events ++ [Event.received peer i]) = received events ++ [i] :=
    received_append ..
  refine ⟨?_, ?_, fun x hx => ?_, fun x hx => delivery?_append (h.waiting x hx) _,
    h.handed_append _, h.room⟩
  · rw [hreceived, h.count, List.length_append]
    rfl
  · rw [hreceived, List.length_append, List.length_singleton, List.range_succ, h.count]
    exact (h.places.cons _).trans (List.perm_append_singleton _ _).symm
  · have hquiet : resultFrom x.1 (received events).length [Event.received peer i] = none := rfl
    rw [hreceived, result?_concat, hquiet, Option.or_none]
    rcases List.mem_cons.1 hx with rfl | hx
    · have hnone : result? events v.nextRun = none :=
        Option.eq_none_iff_forall_ne_some.2 fun result hr =>
          absurd (lt_of_result? hr) (Nat.not_lt.2 h.count.ge)
      exact ⟨by rw [h.count, List.getElem?_concat_length], hnone⟩
    · obtain ⟨hi, hnone⟩ := h.running x hx
      rw [List.getElem?_append_left (List.getElem?_eq_some_iff.1 hi).1]
      exact ⟨hi, hnone⟩

theorem served_finish {result : Except BackendError Json} {i : Inbound}
    (h : v.Served events order) (hi : (run, i) ∈ v.running) :
    { v with
      running := v.running.filter (·.1 != run)
      waiting := (run, ⟨i.channel, Backend.respond i.request result⟩) :: v.waiting }.Served
      (events ++ [Event.finished run result]) order := by
  have hreceived : received (events ++ [Event.finished run result]) = received events :=
    (received_append ..).trans (List.append_nil _)
  obtain ⟨hplace, hnone⟩ := h.running _ hi
  refine ⟨?_, ?_, fun x hx => ?_, fun x hx => ?_, h.handed_append _, h.room⟩
  · rw [hreceived, h.count]
  · rw [hreceived]
    refine List.Perm.trans ?_ h.places
    refine List.perm_iff_count.2 fun x => ?_
    have hout := ((perm_cons_filter h.nodup.1 hi).map (·.1)).count_eq x
    simp only [List.map_cons, List.count_append, List.count_cons] at hout ⊢
    omega
  · obtain ⟨hx, hne⟩ := List.mem_filter.1 hx
    obtain ⟨hx, hxnone⟩ := h.running x hx
    rw [hreceived, result?_concat, hxnone, Option.none_or]
    refine ⟨hx, resultFrom_of_ne fun result' heq => ?_⟩
    cases heq
    simp at hne
  · rcases List.mem_cons.1 hx with rfl | hx
    · refine delivery?_eq_some.2 ⟨i, result, by rw [hreceived, hplace], ?_, rfl⟩
      rw [result?_concat, hnone, Option.none_or, resultFrom_singleton]
      exact ⟨rfl, (List.getElem?_eq_some_iff.1 hplace).1⟩
    · exact delivery?_append (h.waiting x hx) _

theorem served_handOver {d : Delivery} (h : v.Served events order) (hd : (run, d) ∈ v.waiting)
    (hroom : v.outbox.length < outboxSize) :
    { v with
      waiting := v.waiting.filter (·.1 != run)
      outbox := v.outbox ++ [d] }.Served events (order ++ [run]) where
  count := h.count
  places := by
    refine List.Perm.trans ?_ h.places
    refine List.perm_iff_count.2 fun x => ?_
    have hout := ((perm_cons_filter h.nodup.2 hd).map (·.1)).count_eq x
    simp only [List.map_cons, List.count_append, List.count_cons, List.count_nil] at hout ⊢
    omega
  running := h.running
  waiting := fun x hx => h.waiting x (List.mem_of_mem_filter hx)
  handed := by
    rw [List.map_append, h.handed, List.map_singleton, h.waiting _ hd]
    simp
  room := by
    rw [List.length_append]
    exact hroom

theorem served_drain {d : Delivery} {rest : List Delivery} (h : v.Served events order)
    (hd : v.outbox = d :: rest) :
    { v with outbox := rest, sent := d :: v.sent }.Served events order where
  count := h.count
  places := h.places
  running := h.running
  waiting := h.waiting
  handed := by
    rw [h.handed, hd, List.reverse_cons, List.append_assoc]
    rfl
  room := by
    have := h.room
    rw [hd, List.length_cons] at this
    exact (Nat.le_succ _).trans this

theorem Idle.served (he : v.Idle e) (h : v.Served events order) :
    v.Served (events ++ [e]) order := by
  cases e with
  | received peer i => exact he.elim
  | finished run result =>
    refine h.extend rfl fun x hx => resultFrom_of_ne fun result' heq => ?_
    cases heq
    exact he x hx rfl
  | _ => exact h.extend rfl fun x _ => resultFrom_of_ne nofun

theorem Turn.served (ht : v.Turn e v') (h : v.Served events order) :
    ∃ order', v'.Served (events ++ [e]) order' := by
  cases ht with
  | idle he => exact ⟨order, he.served h⟩
  | receive => exact ⟨order, served_receive h⟩
  | finish hi => exact ⟨order, served_finish h hi⟩
  -- The last two events begin and end no run: the account takes them in first.
  | handOver hd hroom =>
    exact ⟨_, served_handOver (h.extend rfl fun x _ => resultFrom_of_ne nofun) hd hroom⟩
  | drain hd =>
    exact ⟨order, served_drain (h.extend rfl fun x _ => resultFrom_of_ne nofun) hd⟩

/-- What was handed over stays so, and in its order; what was sent stays sent. -/
theorem Turn.grows (ht : v.Turn e v') :
    v.sent.reverse ++ v.outbox <+: v'.sent.reverse ++ v'.outbox ∧ v.sent <:+ v'.sent := by
  cases ht with
  | idle => exact ⟨List.prefix_rfl, List.suffix_rfl⟩
  | receive => exact ⟨List.prefix_rfl, List.suffix_rfl⟩
  | finish => exact ⟨List.prefix_rfl, List.suffix_rfl⟩
  | handOver =>
    rw [← List.append_assoc]
    exact ⟨List.prefix_append _ _, List.suffix_rfl⟩
  | drain hd =>
    rw [hd, List.reverse_cons, List.append_assoc]
    exact ⟨List.prefix_rfl, List.suffix_cons _ _⟩

/-! ## The responses -/

/-- The responses in all places are those to the runs that have ended. -/
theorem Served.deliveries (h : v.Served events order) :
    (v.waiting.map (·.2) ++ v.outbox ++ v.sent).Perm
      ((List.range (received events).length).filterMap (delivery? events)) := by
  have hrunning : (v.running.map (·.1)).filterMap (delivery? events) = [] := by
    refine List.filterMap_eq_nil_iff.2 fun run hrun => ?_
    obtain ⟨x, hx, rfl⟩ := List.mem_map.1 hrun
    refine Option.eq_none_iff_forall_ne_some.2 fun d hd => ?_
    obtain ⟨_, _, _, hresult, _⟩ := delivery?_eq_some.1 hd
    rw [(h.running x hx).2] at hresult
    cases hresult
  have hwaiting : (v.waiting.map (·.1)).filterMap (delivery? events) = v.waiting.map (·.2) := by
    rw [List.filterMap_map, ← List.filterMap_eq_map]
    exact List.filterMap_congr fun x hx => h.waiting x hx
  have horder : order.filterMap (delivery? events) = v.sent.reverse ++ v.outbox := by
    have hmap := congrArg (List.filterMap id) h.handed
    rw [List.filterMap_map, List.filterMap_map] at hmap
    exact hmap.trans List.filterMap_some
  have hall := h.places.symm.filterMap (delivery? events)
  rw [List.filterMap_append, List.filterMap_append, hrunning, hwaiting, horder,
    List.nil_append] at hall
  refine List.Perm.trans ?_ hall.symm
  rw [List.append_assoc]
  refine List.Perm.append_left _ (List.perm_append_comm.trans ?_)
  exact (List.reverse_perm _).symm.append_right _

/-- Runs with channels of their own have responses on channels of their own. -/
theorem nodup_channels (hnodup : ((received events).map Inbound.channel).Nodup) :
    (((List.range (received events).length).filterMap (delivery? events)).map
      Delivery.channel).Nodup := by
  rw [List.map_filterMap]
  refine List.Nodup.filterMap (fun run run' channel hc hc' => ?_) List.nodup_range
  have hplace {k : Nat} (hk : channel ∈ (delivery? events k).map Delivery.channel) :
      ((received events).map Inbound.channel)[k]? = some channel := by
    obtain ⟨d, hd, rfl⟩ := Option.map_eq_some_iff.1 hk
    obtain ⟨i, _, hi, -, rfl⟩ := delivery?_eq_some.1 hd
    rw [List.getElem?_map, hi]
    rfl
  have hlt := (List.getElem?_eq_some_iff.1 (hplace hc)).1
  exact (List.getElem?_inj hlt hnodup).1 ((hplace hc).trans (hplace hc').symm)

end Service

/-! ## Runs of the loop -/

theorem served_run (own : PeerId) (ttl : Time) (n : Nat)
    (hrun : ((fresh own ttl n).run events).stopped = false) :
    ∃ order, ((fresh own ttl n).run events).service.Served events order := by
  induction events using List.reverseRecOn with
  | nil => exact ⟨[], rfl, .refl _, nofun, nofun, rfl, Nat.zero_le _⟩
  | append_singleton events e ih =>
    rw [run_concat] at hrun ⊢
    obtain ⟨order, h⟩ := ih (stopped_of_step hrun)
    exact (step_turn (stopped_of_step hrun) hrun).served h

theorem grows_run (own : PeerId) (ttl : Time) (n : Nat) (before later : List Event)
    (hrun : ((fresh own ttl n).run (before ++ later)).stopped = false) :
    let s₀ := (fresh own ttl n).run before
    let s := (fresh own ttl n).run (before ++ later)
    s₀.sent.reverse ++ s₀.outbox <+: s.sent.reverse ++ s.outbox ∧ s₀.sent <:+ s.sent := by
  induction later using List.reverseRecOn with
  | nil =>
    rw [List.append_nil]
    exact ⟨List.prefix_rfl, List.suffix_rfl⟩
  | append_singleton later e ih =>
    rw [← List.append_assoc, run_concat] at hrun ⊢
    obtain ⟨hlog, hsent⟩ := ih (stopped_of_step hrun)
    obtain ⟨hlog', hsent'⟩ := (step_turn (stopped_of_step hrun) hrun).grows
    exact ⟨hlog.trans hlog', hsent.trans hsent'⟩

/-- **Each request of a peer is answered once, on its own channel.** At every moment of a loop that
runs there is one response to each run that has ended, made of its own request and its own
result: with the task of the run, in the outbox, or among those sent. Where the requests came on
channels of their own, no channel gets two. Responses go out in the order in which they were
handed over, and none that was sent is taken back. -/
theorem inbound_spec (own : PeerId) (ttl : Time) (n : Nat) (events : List Event)
    (hrun : ((fresh own ttl n).run events).stopped = false) :
    let s := (fresh own ttl n).run events
    (∃ order, s.service.Served events order) ∧
    (s.waiting.map (·.2) ++ s.outbox ++ s.sent).Perm
      ((List.range (received events).length).filterMap (delivery? events)) ∧
    (((received events).map Inbound.channel).Nodup →
      ((s.waiting.map (·.2) ++ s.outbox ++ s.sent).map Delivery.channel).Nodup) ∧
    ∀ before, before <+: events →
      let s₀ := (fresh own ttl n).run before
      s₀.sent.reverse ++ s₀.outbox <+: s.sent.reverse ++ s.outbox ∧ s₀.sent <:+ s.sent := by
  obtain ⟨order, h⟩ := served_run own ttl n hrun
  refine ⟨⟨order, h⟩, h.deliveries, fun hnodup => ?_, ?_⟩
  · exact (h.deliveries.map _).nodup_iff.2 (Service.nodup_channels hnodup)
  · rintro before ⟨later, rfl⟩
    exact grows_run own ttl n before later hrun

/-- Two peers ask under the same id; the later run ends first and its response is sent, while that
of the other one fails and is still in the outbox. -/
def crossing : List Event :=
  [.received ⟨.sha256, [1]⟩ ⟨4, ⟨"same", "m", .null⟩⟩,
    .received ⟨.sha256, [2]⟩ ⟨9, ⟨"same", "m", .bool true⟩⟩, .finished 1 (.ok (.bool false)),
    .finished 1 (.error .unreachable), .finished 0 (.error .unreachable), .handOver 1,
    .handOver 0, .drain]

theorem inbound_spec_crossing :
    let s := (fresh ⟨.sha256, [3]⟩ 60 8).run crossing
    s.outbox = [⟨4, .refusal "same" "Inference backend unreachable"⟩] ∧
    s.sent = [⟨9, .output "same" (.bool false)⟩] ∧
    (s.waiting.map (·.2) ++ s.outbox ++ s.sent).Perm
      [⟨4, .refusal "same" "Inference backend unreachable"⟩,
        ⟨9, .output "same" (.bool false)⟩] ∧
    ((s.waiting.map (·.2) ++ s.outbox ++ s.sent).map Delivery.channel).Nodup := by
  obtain ⟨-, hall, hchannels, -⟩ := inbound_spec ⟨.sha256, [3]⟩ 60 8 crossing rfl
  exact ⟨rfl, rfl, hall, hchannels (by decide)⟩

end Loop

end Quorum
