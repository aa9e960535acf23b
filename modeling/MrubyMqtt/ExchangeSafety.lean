import MrubyMqtt.ExchangeSlot

/-!
# What the exchange guarantees

The invariant of the two ends, `State.Sound`, says of every message id that its slot is sound. Each
function of the sender and of the receiver touches the slot of one id; what it does there is in
`MrubyMqtt.ExchangeSlot`.
-/

namespace Exchange

/-! ### Storing inbound messages -/

theorem lookup_storeInbound_self (m : InMessage) (inboundMsgs : List InMessage) :
    KeyedList.lookup InMessage.msgid m.msgid (storeInbound m inboundMsgs) = some m := by
  induction inboundMsgs with
  | nil => simp [storeInbound, KeyedList.lookup_cons]
  | cons msg rest ih =>
    by_cases h : msg.msgid = m.msgid
    · simp [storeInbound, KeyedList.lookup_cons, h]
    · simp [storeInbound, KeyedList.lookup_cons, h, ih]

theorem lookup_storeInbound_of_ne {k : ℕ} {m : InMessage} (hk : k ≠ m.msgid)
    (inboundMsgs : List InMessage) :
    KeyedList.lookup InMessage.msgid k (storeInbound m inboundMsgs) =
      KeyedList.lookup InMessage.msgid k inboundMsgs := by
  induction inboundMsgs with
  | nil => simp [storeInbound, KeyedList.lookup_cons, Ne.symm hk]
  | cons msg rest ih =>
    by_cases h : msg.msgid = m.msgid
    · simp [storeInbound, KeyedList.lookup_cons, h, Ne.symm hk]
    · simp [storeInbound, KeyedList.lookup_cons, h, ih]

theorem atMostOnce_storeInbound {m : InMessage} {inboundMsgs : List InMessage}
    (h : ∀ k, KeyedList.AtMostOnce InMessage.msgid k inboundMsgs) (k : ℕ) :
    KeyedList.AtMostOnce InMessage.msgid k (storeInbound m inboundMsgs) := by
  have hmap : (storeInbound m inboundMsgs).map InMessage.msgid = inboundMsgs.map InMessage.msgid ∨
      m.msgid ∉ inboundMsgs.map InMessage.msgid ∧
        (storeInbound m inboundMsgs).map InMessage.msgid =
          inboundMsgs.map InMessage.msgid ++ [m.msgid] := by
    clear h
    induction inboundMsgs with
    | nil => simp [storeInbound]
    | cons msg rest ih =>
      by_cases h : msg.msgid = m.msgid
      · simp [storeInbound, h]
      · simpa [storeInbound, h, Ne.symm h] using ih
  rw [KeyedList.atMostOnce_iff_count]
  have hk := KeyedList.atMostOnce_iff_count.1 (h k)
  obtain hsame | ⟨hnew, happend⟩ := hmap
  · rwa [hsame]
  · rw [happend, List.count_append, List.count_singleton]
    by_cases hkm : m.msgid = k
    · subst hkm
      simp [List.count_eq_zero.2 hnew]
    · simpa [hkm] using hk

namespace State

/-- What there is of one message id. -/
def slot (s : State) (k : ℕ) : Slot where
  out := s.outbound k
  forward := s.toReceiver.filter fun p ↦ p.msgid = k
  stored := (s.inbound k).map InMessage.publication
  backward := s.toSender.filter fun b ↦ b.msgid = k

/-- Every message id is outstanding at most once, and stored at most once. -/
structure Tidy (s : State) : Prop where
  /-- At the sender. -/
  outbound : ∀ k, KeyedList.AtMostOnce OutMessage.msgid k s.outboundMsgs
  /-- At the receiver. -/
  inbound : ∀ k, KeyedList.AtMostOnce InMessage.msgid k s.inboundMsgs

/-- **The invariant.** -/
structure Sound (s : State) : Prop where
  /-- No id is there twice. -/
  tidy : s.Tidy
  /-- Only messages of QoS 1 and 2 are sent. -/
  qos : ∀ p ∈ s.issued, p.2 = 1 ∨ p.2 = 2
  /-- What is processed was sent. -/
  processed : ∀ n ∈ s.processed, n < s.issued.length
  /-- The slots are sound. -/
  slot : ∀ k, (s.slot k).Sound k s.issued s.processed
  /-- A message of QoS 2 is processed at most once. -/
  once : ∀ n k, s.issued[n]? = some (k, 2) → s.processed.count n ≤ 1
  /-- An exchange of QoS 2 that has come to its end is about a message that is processed. -/
  completed : ∀ n ∈ s.completed, ∃ k q, s.issued[n]? = some (k, q) ∧ (q = 2 → n ∈ s.processed)

/-- A message is sent only under an id that is not outstanding. -/
def Unused (s : State) : Event → Prop
  | .publish msgid _ => s.outbound msgid = none
  | _ => True

instance (s : State) : (e : Event) → Decidable (s.Unused e)
  | .publish msgid _ => inferInstanceAs (Decidable (s.outbound msgid = none))
  | .retries _ | .receive | .acknowledge | .loseForward | .loseBackward | .reconnect _ _ =>
    .isTrue trivial

/-! ### What the functions do to a slot -/

section Slots

variable {s : State} {j k : ℕ}

theorem slot_startPublish_self (qos : ℕ) (hk : s.outbound k = none) :
    (s.startPublish k qos).slot k =
      ⟨some ⟨k, qos, .pubrec, s.issued.length⟩,
        (s.slot k).forward ++ [.publish k qos false s.issued.length], (s.slot k).stored,
        (s.slot k).backward⟩ := by
  rw [outbound] at hk
  simp [slot, startPublish, outbound, inbound, KeyedList.lookup_append, KeyedList.lookup_cons, hk]

theorem slot_startPublish_of_ne (qos : ℕ) (hjk : j ≠ k) :
    (s.startPublish k qos).slot j = s.slot j := by
  simp [slot, startPublish, outbound, inbound, KeyedList.lookup, Ne.symm hjk]

/-- What is repeated belongs to the message that is outstanding under its id. -/
theorem mem_retries (hs : s.Tidy) {count : ℕ} {p : Forward}
    (hp : p ∈ ((s.outboundMsgs.take count).flatMap retryPackets).filter fun p ↦ p.msgid = k) :
    ∃ m, s.outbound k = some m ∧ p ∈ retryPackets m := by
  obtain ⟨hmem, hk⟩ := List.mem_filter.1 hp
  obtain ⟨m, hm, hpm⟩ := List.mem_flatMap.1 hmem
  have hid : p.msgid = m.msgid := by
    rw [retryPackets] at hpm
    split_ifs at hpm <;> simp_all
  refine ⟨m, ?_, hpm⟩
  exact (hs.outbound k).lookup_of_mem (List.mem_of_mem_take hm) (hid ▸ of_decide_eq_true hk)

theorem slot_retries (count : ℕ) :
    (s.retries count).slot k =
      ⟨(s.slot k).out, (s.slot k).forward ++
        ((s.outboundMsgs.take count).flatMap retryPackets).filter fun p ↦ p.msgid = k,
        (s.slot k).stored, (s.slot k).backward⟩ := by
  simp [slot, retries, outbound, inbound]

/-- A packet that is read was the first of its slot. -/
theorem slot_forward_cons {p : Forward} {rest : List Forward} (hp : s.toReceiver = p :: rest)
    (hk : p.msgid = k) :
    s.slot k =
      ⟨s.outbound k, p :: rest.filter fun q ↦ q.msgid = k,
        (s.inbound k).map InMessage.publication, s.toSender.filter fun b ↦ b.msgid = k⟩ := by
  simp [slot, hp, hk]

theorem slot_backward_cons {b : Backward} {rest : List Backward} (hb : s.toSender = b :: rest)
    (hk : b.msgid = k) :
    s.slot k =
      ⟨s.outbound k, s.toReceiver.filter fun q ↦ q.msgid = k,
        (s.inbound k).map InMessage.publication, b :: rest.filter fun c ↦ c.msgid = k⟩ := by
  simp [slot, hb, hk]

theorem filter_forward_of_ne {p : Forward} {rest : List Forward} (hp : s.toReceiver = p :: rest)
    (hj : j ≠ p.msgid) :
    s.toReceiver.filter (fun q ↦ q.msgid = j) = rest.filter fun q ↦ q.msgid = j := by
  simp [hp, Ne.symm hj]

theorem filter_backward_of_ne {b : Backward} {rest : List Backward} (hb : s.toSender = b :: rest)
    (hj : j ≠ b.msgid) :
    s.toSender.filter (fun c ↦ c.msgid = j) = rest.filter fun c ↦ c.msgid = j := by
  simp [hb, Ne.symm hj]

/-- An exchange that has come to its end leaves the other slots alone. -/
theorem slot_remove_of_ne {b : Backward} {rest : List Backward} (hb : s.toSender = b :: rest)
    (hj : j ≠ b.msgid) (completed : List ℕ) :
    State.slot { s with
      toSender := rest
      outboundMsgs := KeyedList.remove OutMessage.msgid b.msgid s.outboundMsgs
      completed := completed } j = s.slot j := by
  have hother := filter_backward_of_ne hb hj
  have hremove : KeyedList.lookup OutMessage.msgid j
      (KeyedList.remove OutMessage.msgid b.msgid s.outboundMsgs) =
        KeyedList.lookup OutMessage.msgid j s.outboundMsgs :=
    KeyedList.lookup_remove_of_ne hj _
  simp [slot, outbound, inbound, hother, hremove]

/-- And has no outbound message any more. -/
theorem slot_remove_self (hs : s.Tidy) (rest : List Backward) (completed : List ℕ) :
    State.slot { s with
      toSender := rest
      outboundMsgs := KeyedList.remove OutMessage.msgid k s.outboundMsgs
      completed := completed } k =
      ⟨none, s.toReceiver.filter fun q ↦ q.msgid = k,
        (s.inbound k).map InMessage.publication, rest.filter fun c ↦ c.msgid = k⟩ := by
  have hremove := KeyedList.lookup_remove_self (hs.outbound k)
  simp [slot, outbound, inbound, hremove]

/-- Losing the first packet, or all of them, is a loss in every slot. -/
theorem loses_slot {forward : List Forward} {backward : List Backward}
    (hf : forward.Sublist s.toReceiver) (hb : backward.Sublist s.toSender) (k : ℕ) :
    Slot.Loses (s.slot k)
      (State.slot { s with toReceiver := forward, toSender := backward } k) where
  out := rfl
  stored := rfl
  forward := hf.filter _
  backward := hb.filter _

end Slots

/-! ### Handling a packet -/

/-- A packet is handled: it concerns the slot of one id. -/
structure Handles (s s' : State) (k : ℕ) (n? c? : Option ℕ) : Prop where
  /-- What happens to the slot. -/
  handled : Slot.Handled k (s.slot k) n? c? (s'.slot k)
  /-- The other slots stay. -/
  other : ∀ j ≠ k, s'.slot j = s.slot j
  /-- No id is there twice. -/
  tidy : s'.Tidy
  /-- Nothing is sent. -/
  issued : s'.issued = s.issued
  /-- The message that is processed, if any, is the last one. -/
  processed : s'.processed = s.processed ++ n?.toList
  /-- So is the one whose exchange has come to its end. -/
  completed : s'.completed = s.completed ++ c?.toList

section Handles

variable {s : State}

/-- The receiver reads a packet. -/
theorem handleForward_handles (hs : s.Tidy) (hnamed : ∀ k, (s.slot k).Named k s.issued)
    (hqos : ∀ p ∈ s.issued, p.2 = 1 ∨ p.2 = 2) {p : Forward} {rest : List Forward}
    (hp : s.toReceiver = p :: rest) :
    ∃ k n? c?, Handles s (State.handleForward { s with toReceiver := rest } p) k n? c? := by
  cases p with
  | publish msgid qos dup n =>
    have hslot := slot_forward_cons hp (Forward.msgid_publish ..)
    have hn : s.issued[n]? = some (msgid, qos) := by
      refine (hnamed msgid).publish qos dup n ?_
      rw [hslot]
      exact List.mem_cons_self ..
    rw [State.handleForward, State.handlePublishes]
    obtain rfl | rfl : qos = 1 ∨ qos = 2 := hqos _ (List.mem_of_getElem? hn)
    · rw [if_pos rfl]
      refine ⟨msgid, some n, none, ?_, fun j hj ↦ ?_, ⟨hs.outbound, hs.inbound⟩, rfl, rfl,
        (List.append_nil _).symm⟩
      · have hone := Slot.Handled.publishOne (k := msgid) (s.outbound msgid) dup n
          (rest.filter fun q ↦ q.msgid = msgid) ((s.inbound msgid).map InMessage.publication)
          (s.toSender.filter fun b ↦ b.msgid = msgid)
        rw [hslot]
        simpa [State.slot, State.processPublication, outbound, inbound] using hone
      · have hother := filter_forward_of_ne hp hj
        simp [State.slot, State.processPublication, outbound, inbound, hother, Ne.symm hj]
    · rw [if_neg (by decide), if_pos rfl]
      refine ⟨msgid, none, none, ?_, fun j hj ↦ ?_,
        ⟨hs.outbound, fun k ↦ atMostOnce_storeInbound hs.inbound k⟩, rfl,
        (List.append_nil _).symm, (List.append_nil _).symm⟩
      · have htwo := Slot.Handled.publishTwo (k := msgid) (s.outbound msgid) dup n
          (rest.filter fun q ↦ q.msgid = msgid) ((s.inbound msgid).map InMessage.publication)
          (s.toSender.filter fun b ↦ b.msgid = msgid)
        have hstore := lookup_storeInbound_self ⟨msgid, n⟩ s.inboundMsgs
        dsimp only at hstore
        rw [hslot]
        simpa [State.slot, outbound, inbound, hstore] using htwo
      · have hother := filter_forward_of_ne hp hj
        have hstore := lookup_storeInbound_of_ne (m := ⟨msgid, n⟩) hj s.inboundMsgs
        simp [State.slot, outbound, inbound, hother, Ne.symm hj, hstore]
  | pubrel msgid dup =>
    have hslot := slot_forward_cons hp (Forward.msgid_pubrel ..)
    rw [State.handleForward, State.handlePubrels]
    rcases hin : s.inbound msgid with - | m
    · obtain rfl : dup = false := by
        have hmem := (hnamed msgid).forward (.pubrel msgid dup) (by
          rw [hslot]
          exact List.mem_cons_self ..)
        simpa using hmem
      have hin' : State.inbound { s with toReceiver := rest } msgid = none := hin
      simp only [hin']
      refine ⟨msgid, none, none, ?_, fun j hj ↦ ?_, ⟨hs.outbound, hs.inbound⟩, rfl,
        (List.append_nil _).symm, (List.append_nil _).symm⟩
      · have hign := Slot.Handled.ignored (k := msgid) (s.outbound msgid)
          (rest.filter fun q ↦ q.msgid = msgid) (s.toSender.filter fun b ↦ b.msgid = msgid)
        rw [hslot, hin]
        rw [inbound] at hin
        simpa [State.slot, outbound, inbound, hin] using hign
      · have hother := filter_forward_of_ne hp hj
        simp [State.slot, outbound, inbound, hother]
    · have hin' : State.inbound { s with toReceiver := rest } msgid = some m := hin
      simp only [hin']
      refine ⟨msgid, some m.publication, none, ?_, fun j hj ↦ ?_,
        ⟨hs.outbound, fun k ↦ (hs.inbound k).remove⟩, rfl, rfl, (List.append_nil _).symm⟩
      · have hrel := Slot.Handled.pubrel (k := msgid) (s.outbound msgid) dup m.publication
          (rest.filter fun q ↦ q.msgid = msgid) (s.toSender.filter fun b ↦ b.msgid = msgid)
        have hremove := KeyedList.lookup_remove_self (hs.inbound msgid)
        rw [hslot, hin]
        simpa [State.slot, State.processPublication, outbound, inbound, hremove] using hrel
      · have hother := filter_forward_of_ne hp hj
        have hremove : KeyedList.lookup InMessage.msgid j
            (KeyedList.remove InMessage.msgid msgid s.inboundMsgs) =
              KeyedList.lookup InMessage.msgid j s.inboundMsgs :=
          KeyedList.lookup_remove_of_ne hj _
        simp [State.slot, State.processPublication, outbound, inbound, hother, Ne.symm hj, hremove]

/-- An answer that is not expected is dropped. -/
theorem unexpected_handles (hs : s.Tidy) {b : Backward} {rest : List Backward}
    (hb : s.toSender = b :: rest) (hans : ∀ m, s.outbound b.msgid = some m → ¬ b.Answers m) :
    Handles s { s with toSender := rest } b.msgid none none := by
  refine ⟨?_, fun j hj ↦ ?_, ⟨hs.outbound, hs.inbound⟩, rfl, (List.append_nil _).symm,
    (List.append_nil _).symm⟩
  · rw [slot_backward_cons hb rfl]
    exact .unexpected _ _ _ _ _ hans
  · have hother := filter_backward_of_ne hb hj
    simp [State.slot, outbound, inbound, hother]

/-- A message that is answered leaves `outboundMsgs`. -/
theorem remove_handles (hs : s.Tidy) {k : ℕ} {b : Backward} {rest : List Backward}
    (hb : s.toSender = b :: rest) (hk : b.msgid = k) {n : ℕ}
    (hh : Slot.Handled k (s.slot k) none (some n)
      ⟨none, s.toReceiver.filter fun q ↦ q.msgid = k,
        (s.inbound k).map InMessage.publication, rest.filter fun c ↦ c.msgid = k⟩) :
    Handles s { s with
      toSender := rest
      outboundMsgs := KeyedList.remove OutMessage.msgid k s.outboundMsgs
      completed := s.completed ++ [n] } k none (some n) := by
  refine ⟨?_, fun j hj ↦ ?_, ⟨fun k ↦ (hs.outbound k).remove, hs.inbound⟩, rfl,
    (List.append_nil _).symm, rfl⟩
  · rw [slot_remove_self hs rest]
    exact hh
  · subst hk
    exact slot_remove_of_ne hb hj _

/-- The sender reads an answer. -/
theorem handleBackward_handles (hs : s.Tidy) {b : Backward} {rest : List Backward}
    (hb : s.toSender = b :: rest) :
    ∃ k n? c?, Handles s (State.handleBackward { s with toSender := rest } b) k n? c? := by
  rcases hout : s.outbound b.msgid with - | m
  · have hdrop : State.handleBackward { s with toSender := rest } b =
        { s with toSender := rest } := by
      have hout' : State.outbound { s with toSender := rest } b.msgid = none := hout
      cases b with
      | puback msgid => simp_all [State.handleBackward, State.handlePubacks]
      | pubrec msgid => simp_all [State.handleBackward, State.handlePubrecs]
      | pubcomp msgid => simp_all [State.handleBackward, State.handlePubcomps]
    rw [hdrop]
    exact ⟨_, _, _, unexpected_handles hs hb fun m hm ↦ by simp [hout] at hm⟩
  · have hmsgid : m.msgid = b.msgid := KeyedList.key_of_lookup hout
    have hslot := slot_backward_cons hb rfl
    rw [hout] at hslot
    have hunexpected : ¬ b.Answers m →
        ∃ k n? c?, Handles s { s with toSender := rest } k n? c? := by
      intro hans
      refine ⟨_, _, _, unexpected_handles hs hb fun m' hm' ↦ ?_⟩
      obtain rfl : m = m' := Option.some.inj (hout.symm.trans hm')
      exact hans
    cases b with
    | puback msgid =>
      have hout' : State.outbound { s with toSender := rest } msgid = some m := hout
      simp only [State.handleBackward, State.handlePubacks, hout']
      split_ifs with hq
      · exact hunexpected hq
      · refine ⟨_, _, _, remove_handles hs hb (Backward.msgid_puback ..) ?_⟩
        rw [Backward.msgid_puback] at hslot
        rw [hslot]
        exact .puback m (not_not.1 hq) ..
    | pubrec msgid =>
      have hout' : State.outbound { s with toSender := rest } msgid = some m := hout
      simp only [State.handleBackward, State.handlePubrecs, hout']
      split_ifs with hq hnext
      · exact hunexpected fun h ↦ hq h.1
      · exact hunexpected fun h ↦ hnext h.2
      · obtain ⟨id, qos, next, n⟩ := m
        obtain rfl : id = msgid := hmsgid
        obtain rfl : qos = 2 := not_not.1 hq
        obtain rfl : next = .pubrec := not_not.1 hnext
        have hkey : ∀ m : OutMessage,
            OutMessage.msgid { m with nextMessageType := .pubcomp } = m.msgid := fun _ ↦ rfl
        refine ⟨id, none, none, ?_, fun j hj ↦ ?_,
          ⟨fun k ↦ (hs.outbound k).modify hkey, hs.inbound⟩, rfl, (List.append_nil _).symm,
          (List.append_nil _).symm⟩
        · have hmodify := KeyedList.lookup_modify_self (k := id) hkey s.outboundMsgs
          have hpubrec := Slot.Handled.pubrec (k := id) n
            (s.toReceiver.filter fun q ↦ q.msgid = id)
            ((s.inbound id).map InMessage.publication) (rest.filter fun c ↦ c.msgid = id)
          rw [Backward.msgid_pubrec] at hslot
          rw [outbound] at hout'
          rw [hslot]
          simpa [State.slot, outbound, inbound, hmodify, hout'] using hpubrec
        · have hother := filter_backward_of_ne hb hj
          have hmodify := KeyedList.lookup_modify_of_ne hj hkey s.outboundMsgs
          simp [State.slot, outbound, inbound, hother, Ne.symm hj, hmodify]
    | pubcomp msgid =>
      have hout' : State.outbound { s with toSender := rest } msgid = some m := hout
      simp only [State.handleBackward, State.handlePubcomps, hout']
      split_ifs with hq hnext
      · exact hunexpected fun h ↦ hq h.1
      · exact hunexpected fun h ↦ hnext h.2
      · obtain ⟨id, qos, next, n⟩ := m
        obtain rfl : id = msgid := hmsgid
        obtain rfl : qos = 2 := not_not.1 hq
        obtain rfl : next = .pubcomp := not_not.1 hnext
        refine ⟨_, _, _, remove_handles hs hb (Backward.msgid_pubcomp ..) ?_⟩
        rw [Backward.msgid_pubcomp] at hslot
        rw [hslot]
        exact .pubcomp n ..

/-- The event that a packet is read. -/
def Reads (e : Event) : Prop := e = .receive ∨ e = .acknowledge

instance (e : Event) : Decidable (Reads e) := inferInstanceAs (Decidable (_ ∨ _))

/-- What a step can be. -/
inductive Steps (s : State) : Event → State → Prop
  /-- A message is sent. -/
  | publish {msgid qos : ℕ} (hqos : qos = 1 ∨ qos = 2) :
      Steps s (.publish msgid qos) (s.startPublish msgid qos)
  /-- A packet is handled. -/
  | handles {e : Event} (he : Reads e) {s' : State} {k : ℕ} {n? c? : Option ℕ}
      (h : Handles s s' k n? c?) : Steps s e s'
  /-- Packets are lost, and what is outstanding is repeated. -/
  | retries {e : Event} (he : ¬ Reads e) (forward : List Forward) (backward : List Backward)
      (hf : forward.Sublist s.toReceiver) (hb : backward.Sublist s.toSender) (count : ℕ) :
      Steps s e (State.retries { s with toReceiver := forward, toSender := backward } count)
  /-- Both ends forget the session. -/
  | forget (count : ℕ) : Steps s (.reconnect true count) s.disconnect.cleanSession

theorem retries_eq_self {count : ℕ} (h : s.outboundMsgs.take count = []) :
    s.retries count = s := by
  simp [retries, h]

/-- **Every step** is one of these. -/
theorem step_cases (hs : s.Tidy) (hnamed : ∀ k, (s.slot k).Named k s.issued)
    (hqos : ∀ p ∈ s.issued, p.2 = 1 ∨ p.2 = 2) {e : Event} {s' : State}
    (h : machine.step s e = some s') : Steps s e s' := by
  cases e with
  | publish msgid qos =>
    simp only [machine, State.step] at h
    split_ifs at h with hqos
    obtain rfl := Option.some.inj h
    exact .publish hqos
  | retries count =>
    obtain rfl := Option.some.inj h
    exact .retries (by simp [Reads]) _ _ (List.Sublist.refl _) (List.Sublist.refl _) count
  | receive =>
    rcases hp : s.toReceiver with - | ⟨p, rest⟩
    · simp [machine, State.step, hp] at h
    · obtain rfl : State.handleForward { s with toReceiver := rest } p = s' := by
        simpa [machine, State.step, hp] using h
      obtain ⟨k, n?, c?, hh⟩ := handleForward_handles hs hnamed hqos hp
      exact .handles (.inl rfl) hh
  | acknowledge =>
    rcases hb : s.toSender with - | ⟨b, rest⟩
    · simp [machine, State.step, hb] at h
    · obtain rfl : State.handleBackward { s with toSender := rest } b = s' := by
        simpa [machine, State.step, hb] using h
      obtain ⟨k, n?, c?, hh⟩ := handleBackward_handles hs hb
      exact .handles (.inr rfl) hh
  | loseForward =>
    rcases hp : s.toReceiver with - | ⟨p, rest⟩
    · simp [machine, State.step, hp] at h
    · obtain rfl : { s with toReceiver := rest } = s' := by
        simpa [machine, State.step, hp] using h
      have hlost := Steps.retries (s := s) (e := .loseForward) (by simp [Reads]) rest s.toSender
        (hp ▸ List.sublist_cons_self ..) (List.Sublist.refl _) 0
      rwa [retries_eq_self rfl] at hlost
  | loseBackward =>
    rcases hb : s.toSender with - | ⟨b, rest⟩
    · simp [machine, State.step, hb] at h
    · obtain rfl : { s with toSender := rest } = s' := by
        simpa [machine, State.step, hb] using h
      have hlost := Steps.retries (s := s) (e := .loseBackward) (by simp [Reads]) s.toReceiver rest
        (List.Sublist.refl _) (hb ▸ List.sublist_cons_self ..) 0
      rwa [retries_eq_self rfl] at hlost
  | reconnect cleansession count =>
    obtain rfl := Option.some.inj h
    cases cleansession with
    | true =>
      rw [if_pos rfl, retries_eq_self List.take_nil]
      exact .forget count
    | false => exact .retries (by simp [Reads]) _ _ (List.nil_sublist _) (List.nil_sublist _) count

end Handles

/-! ### The invariant -/

namespace Sound

variable {s s' : State}

/-- A packet is handled. -/
theorem handles (hs : s.Sound) {k : ℕ} {n? c? : Option ℕ} (h : Handles s s' k n? c?) :
    s'.Sound := by
  obtain ⟨hk, hn, hc⟩ := (hs.slot k).handled h.handled
  refine ⟨h.tidy, ?_, ?_, ?_, ?_, ?_⟩
  · rw [h.issued]
    exact hs.qos
  · intro n hmem
    rw [h.issued]
    rw [h.processed] at hmem
    rcases List.mem_append.1 hmem with hmem | hmem
    · exact hs.processed n hmem
    · obtain ⟨q, hq, -⟩ := hn n (Option.mem_toList.1 hmem)
      exact (List.getElem?_eq_some_iff.1 hq).1
  · intro j
    rw [h.issued, h.processed]
    by_cases hjk : j = k
    · exact hjk ▸ hk
    · rw [h.other j hjk]
      rcases n? with - | n
      · simpa using hs.slot j
      · refine (hs.slot j).process fun m hm _ hmn ↦ hjk ?_
        obtain ⟨q, hq, -⟩ := hn n rfl
        have hj := ((hs.slot j).named.out m hm).1
        rw [hmn, hq] at hj
        exact (Prod.mk.inj (Option.some.inj hj)).1.symm
  · intro n j hj
    rw [h.issued] at hj
    rw [h.processed, List.count_append]
    rcases n? with - | m
    · simpa using hs.once n j hj
    · obtain ⟨q, hq, hnot⟩ := hn m rfl
      by_cases hmn : m = n
      · obtain rfl : q = 2 := by
          rw [hmn, hj] at hq
          exact (Prod.mk.inj (Option.some.inj hq)).2.symm
        have hzero : s.processed.count n = 0 := List.count_eq_zero.2 (hmn ▸ hnot rfl)
        simp [hzero, hmn]
      · simpa [hmn] using hs.once n j hj
  · intro n hmem
    rw [h.issued, h.processed]
    rw [h.completed] at hmem
    rcases List.mem_append.1 hmem with hmem | hmem
    · obtain ⟨j, q, hj, hq⟩ := hs.completed n hmem
      exact ⟨j, q, hj, fun h2 ↦ List.mem_append_left _ (hq h2)⟩
    · obtain ⟨q, hq, hin⟩ := hc n (Option.mem_toList.1 hmem)
      exact ⟨k, q, hq, fun h2 ↦ List.mem_append_left _ (hin h2)⟩

/-- A message is sent. -/
theorem startPublish (hs : s.Sound) {msgid qos : ℕ} (hqos : qos = 1 ∨ qos = 2)
    (hunused : s.outbound msgid = none) : (s.startPublish msgid qos).Sound := by
  have hold : ∀ {n q}, (s.issued ++ [(msgid, qos)])[n]? = some q → n < s.issued.length →
      s.issued[n]? = some q := by
    intro n q hn hlt
    rwa [List.getElem?_append_left hlt] at hn
  refine ⟨⟨fun k ↦ ?_, hs.tidy.inbound⟩, ?_, ?_, ?_, ?_, ?_⟩
  · exact (hs.tidy.outbound k).append fun hk ↦ by
      obtain rfl : msgid = k := hk
      exact hunused
  · intro p hp
    rcases List.mem_append.1 hp with hp | hp
    · exact hs.qos p hp
    · rw [List.mem_singleton.1 hp]
      exact hqos
  · intro n hn
    have := hs.processed n hn
    show n < (s.issued ++ [(msgid, qos)]).length
    rw [List.length_append]
    omega
  · intro k
    by_cases hk : k = msgid
    · subst hk
      rw [slot_startPublish_self qos hunused]
      refine Slot.Sound.start hqos hs.processed ?_
      have hslot := hs.slot k
      rwa [show s.slot k = ⟨none, (s.slot k).forward, (s.slot k).stored, (s.slot k).backward⟩ by
        rw [State.slot, hunused]] at hslot
    · rw [slot_startPublish_of_ne qos hk]
      exact (hs.slot k).issue _
  · intro n k hn
    by_cases hlt : n < s.issued.length
    · exact hs.once n k (hold hn hlt)
    · have hzero : s.processed.count n = 0 :=
        List.count_eq_zero.2 fun hmem ↦ hlt (hs.processed n hmem)
      show s.processed.count n ≤ 1
      omega
  · intro n hn
    obtain ⟨k, q, hk, hq⟩ := hs.completed n hn
    refine ⟨k, q, ?_, hq⟩
    show (s.issued ++ [(msgid, qos)])[n]? = some (k, q)
    rw [List.getElem?_append_left (List.getElem?_eq_some_iff.1 hk).1, hk]

/-- What is outstanding is repeated. -/
theorem retries (hs : s.Sound) (count : ℕ) : (s.retries count).Sound where
  tidy := ⟨hs.tidy.outbound, hs.tidy.inbound⟩
  qos := hs.qos
  processed := hs.processed
  slot k := by
    rw [slot_retries]
    exact (hs.slot k).retry fun p hp ↦ mem_retries hs.tidy hp
  once := hs.once
  completed := hs.completed

/-- Packets are lost. -/
theorem loses (hs : s.Sound) {forward : List Forward} {backward : List Backward}
    (hf : forward.Sublist s.toReceiver) (hb : backward.Sublist s.toSender) :
    State.Sound { s with toReceiver := forward, toSender := backward } where
  tidy := ⟨hs.tidy.outbound, hs.tidy.inbound⟩
  qos := hs.qos
  processed := hs.processed
  slot k := (hs.slot k).loses (loses_slot hf hb k)
  once := hs.once
  completed := hs.completed

/-- Both ends forget the session. -/
theorem cleanSession (hs : s.Sound) : s.disconnect.cleanSession.Sound where
  tidy := ⟨fun _ ↦ Nat.zero_le _, fun _ ↦ Nat.zero_le _⟩
  qos := hs.qos
  processed := hs.processed
  slot _ := Slot.Sound.empty
  once := hs.once
  completed := hs.completed

end Sound

/-- **Every step** keeps the invariant, if no message is sent under an id that is outstanding. -/
theorem Sound.step {s s' : State} {e : Event} (hs : s.Sound) (hunused : s.Unused e)
    (h : machine.step s e = some s') : s'.Sound := by
  obtain hqos | ⟨-, hh⟩ | ⟨-, forward, backward, hf, hb, count⟩ | count :=
    step_cases hs.tidy (fun k ↦ (hs.slot k).named) hs.qos h
  · exact hs.startPublish hqos hunused
  · exact hs.handles hh
  · exact (hs.loses hf hb).retries count
  · exact hs.cleanSession

theorem Sound.start : Exchange.start.Sound where
  tidy := ⟨fun _ ↦ Nat.zero_le _, fun _ ↦ Nat.zero_le _⟩
  qos _ hp := absurd hp List.not_mem_nil
  processed _ hn := absurd hn List.not_mem_nil
  slot _ := Slot.Sound.empty
  once _ _ hn := by cases hn
  completed _ hn := absurd hn List.not_mem_nil

/-- The invariant holds wherever a run leads. -/
theorem Sound.run {s : State} {es : List Event}
    (hunused : machine.EachStep (fun s e _ ↦ s.Unused e) Exchange.start es)
    (hrun : machine.run Exchange.start es = some s) : s.Sound := by
  have halways : machine.Always Sound Exchange.start es :=
    machine.always_of_guarded (fun _ _ _ hs h hu ↦ hs.step hu h) (fun _ hs ↦ hs) Sound.start hunused
  exact halways.last machine hrun

/-! ### Once, and no more -/

/-- **QoS 2 is at most once**, whatever is lost, repeated or reconnected: a message is processed at
most once, and once if its exchange has come to its end. -/
theorem processed_once {s : State} {es : List Event}
    (hunused : machine.EachStep (fun s e _ ↦ s.Unused e) Exchange.start es)
    (hrun : machine.run Exchange.start es = some s) {n k : ℕ}
    (hn : s.issued[n]? = some (k, 2)) :
    s.processed.count n ≤ 1 ∧ (n ∈ s.completed → s.processed.count n = 1) := by
  have hs := Sound.run hunused hrun
  have honce := hs.once n k hn
  refine ⟨honce, fun hc ↦ ?_⟩
  obtain ⟨j, q, hq, hmem⟩ := hs.completed n hc
  obtain rfl : q = 2 := by
    rw [hn] at hq
    exact (Prod.mk.inj (Option.some.inj hq)).2.symm
  have hpos := List.count_pos_iff.2 (hmem rfl)
  omega

/-- A message that is repeated before it is acknowledged is processed once. -/
theorem processed_once_repeated :
    ∃ s, machine.run start
      [.publish 7 2, .retries 1, .receive, .receive, .acknowledge, .acknowledge, .receive,
        .acknowledge] = some s ∧ s.completed = [0] ∧ s.processed.count 0 = 1 := by
  have honce : ∀ s, machine.run start
      [.publish 7 2, .retries 1, .receive, .receive, .acknowledge, .acknowledge, .receive,
        .acknowledge] = some s → s.completed = [0] ∧ s.processed.count 0 = 1 := by
    intro s hrun
    obtain rfl := Option.some.inj hrun
    have h := processed_once (n := 0) (k := 7) (by decide) hrun (by decide)
    exact ⟨rfl, h.2 (by decide)⟩
  exact ⟨_, rfl, honce _ rfl⟩

/-! ### A PUBCOMP that is lost -/

/-- A message is released, processed, and no PUBCOMP for it is under way. -/
def Stuck (s : State) (m : OutMessage) : Prop :=
  s.outbound m.msgid = some m ∧ m.qos = 2 ∧ m.nextMessageType = .pubcomp ∧
    s.inbound m.msgid = none ∧ .pubcomp m.msgid ∉ s.toSender

instance (s : State) (m : OutMessage) : Decidable (s.Stuck m) :=
  inferInstanceAs (Decidable (_ ∧ _ ∧ _ ∧ _ ∧ _))

/-- A stuck message has been processed. -/
theorem Stuck.released {s : State} (hs : s.Sound) {m : OutMessage} (h : s.Stuck m) :
    (s.slot m.msgid).Released m.msgid s.processed m.publication := by
  obtain ⟨hout, hq, hnext, hin, -⟩ := h
  obtain hi | ⟨n, hw⟩ | ⟨n, hr⟩ | ⟨n, hd⟩ := (hs.slot m.msgid).stage
  · have hone := hi.out m hout
    omega
  · have hm : m = ⟨m.msgid, 2, .pubrec, n⟩ := Option.some.inj (hout.symm.trans hw.out)
    rw [hm] at hnext
    cases hnext
  · have hstored : (s.inbound m.msgid).map InMessage.publication = some n := hr.stored
    simp [hin] at hstored
  · have hn : m.publication = n := by rw [Option.some.inj (hout.symm.trans hd.out)]
    exact hn ▸ hd

/-- A slot whose message is stuck. -/
theorem stuck_iff_slot {s : State} {m : OutMessage} :
    s.Stuck m ↔ (s.slot m.msgid).out = some m ∧ m.qos = 2 ∧ m.nextMessageType = .pubcomp ∧
      (s.slot m.msgid).stored = none ∧ .pubcomp m.msgid ∉ (s.slot m.msgid).backward := by
  simp [Stuck, slot]

end State

/-- Handling a packet does not free a message that is stuck. -/
theorem Slot.Released.stuck {k n : ℕ} {processed : List ℕ} {sl sl' : Slot} {n? c? : Option ℕ}
    (h : sl.Released k processed n) (hpubcomp : .pubcomp k ∉ sl.backward)
    (hh : Handled k sl n? c? sl') :
    sl'.out = some ⟨k, 2, .pubcomp, n⟩ ∧ sl'.stored = none ∧ .pubcomp k ∉ sl'.backward := by
  have hout := h.out
  cases hh with
  | publishOne out dup n forward stored backward =>
    exact ⟨hout, h.stored, by simpa using hpubcomp⟩
  | publishTwo out dup n forward stored backward =>
    exact absurd (List.mem_cons_self ..) (h.publish dup n)
  | pubrel out dup n forward backward => cases h.stored
  | ignored out forward backward => exact ⟨hout, rfl, hpubcomp⟩
  | puback m hq forward stored backward =>
    obtain rfl := Option.some.inj hout
    cases hq
  | pubrec n forward stored backward => cases hout
  | pubcomp n forward stored backward => exact absurd (List.mem_cons_self ..) hpubcomp
  | unexpected out forward stored b backward hb =>
    exact ⟨hout, h.stored, fun hmem ↦ hpubcomp (List.mem_cons_of_mem _ hmem)⟩

namespace State

/-- The event keeps the session. -/
def Keeps : Event → Prop
  | .reconnect cleansession _ => cleansession = false
  | _ => True

instance : (e : Event) → Decidable (Keeps e)
  | .reconnect cleansession _ => inferInstanceAs (Decidable (cleansession = false))
  | .publish _ _ | .retries _ | .receive | .acknowledge | .loseForward | .loseBackward =>
    .isTrue trivial

/-- A step that keeps the session keeps what is stuck in it. -/
theorem Stuck.step {s s' : State} {e : Event} {m : OutMessage} (hs : s.Sound) (h : s.Stuck m)
    (hunused : s.Unused e) (hkeeps : Keeps e) (hstep : machine.step s e = some s') :
    s'.Stuck m := by
  have hreleased := h.released hs
  obtain ⟨hout, hq, hnext, hstored, hpubcomp⟩ := stuck_iff_slot.1 h
  rw [stuck_iff_slot]
  obtain hqos | @⟨e, -, s', k, n?, c?, hh⟩ | ⟨-, forward, backward, hf, hb, count⟩ | count :=
    step_cases hs.tidy (fun k ↦ (hs.slot k).named) hs.qos hstep
  · rename_i msgid qos
    have hne : m.msgid ≠ msgid := by
      rintro rfl
      exact absurd (hout.symm.trans hunused) (Option.some_ne_none _)
    rw [slot_startPublish_of_ne qos hne]
    exact ⟨hout, hq, hnext, hstored, hpubcomp⟩
  · by_cases hk : m.msgid = k
    · subst hk
      have hstuck := hreleased.stuck hpubcomp hh.handled
      rw [← hreleased.out, hout] at hstuck
      exact ⟨hstuck.1, hq, hnext, hstuck.2⟩
    · rw [hh.other _ hk]
      exact ⟨hout, hq, hnext, hstored, hpubcomp⟩
  · rw [slot_retries]
    exact ⟨hout, hq, hnext, hstored, fun hmem ↦ hpubcomp ((hb.filter _).mem hmem)⟩
  · cases hkeeps

/-- **A lost PUBCOMP is not made good.** The receiver answers a PUBREL that it has no message for
only if it is marked as a duplicate, and the sender never marks one. So a message whose PUBCOMP is
lost stays outstanding as long as the session lasts, however often it is repeated. -/
theorem stuck_stays {s : State} {es fs : List Event} {m : OutMessage}
    (hunused : machine.EachStep (fun s e _ ↦ s.Unused e) start es)
    (hrun : machine.run start es = some s) (hstuck : s.Stuck m)
    (hkeeps : machine.EachStep (fun s e _ ↦ s.Unused e ∧ Keeps e) s fs) :
    machine.Always (fun t ↦ t.Stuck m ∧ m.publication ∈ t.processed) s fs := by
  refine machine.always_of_guarded (J := fun t ↦ t.Sound ∧ t.Stuck m)
    (fun t e t' ht hstep hguard ↦ ?_) (fun t ht ↦ ⟨ht.2, (ht.2.released ht.1).processed⟩)
    ⟨Sound.run hunused hrun, hstuck⟩ hkeeps
  exact ⟨ht.1.step hguard.1 hstep, ht.2.step ht.1 hguard.1 hguard.2 hstep⟩

/-- The PUBCOMP is lost with the connection, and repeating the PUBREL over the next one does not
help. -/
theorem stuck_stays_reconnected :
    ∃ s, machine.run start
      [.publish 7 2, .receive, .acknowledge, .receive, .reconnect false 1] = some s ∧
        machine.Always (fun t ↦ t.Stuck ⟨7, 2, .pubcomp, 0⟩ ∧ 0 ∈ t.processed) s
          [.receive, .retries 1, .receive, .reconnect false 1, .receive] := by
  have hstuck : ∀ s, machine.run start
      [.publish 7 2, .receive, .acknowledge, .receive, .reconnect false 1] = some s →
        machine.Always (fun t ↦ t.Stuck ⟨7, 2, .pubcomp, 0⟩ ∧ 0 ∈ t.processed) s
          [.receive, .retries 1, .receive, .reconnect false 1, .receive] := by
    intro s hrun
    obtain rfl := Option.some.inj hrun
    exact stuck_stays (by decide) hrun (by decide) (by decide)
  exact ⟨_, rfl, hstuck _ rfl⟩

end State

end Exchange
