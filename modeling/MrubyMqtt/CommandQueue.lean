import Mathlib.Data.List.Count
import Mathlib.Data.List.InsertIdx
import MrubyMqtt.Connections
import MrubyMqtt.Outgoing

/-!
# The command queue

What the application asks of Paho goes through one queue for all clients, from which the send thread
takes the first command that may run. Two things are to be seen to: that the commands of a client
are started in the order in which they were accepted, although commands of other clients overtake
them and a CONNECT or an internal DISCONNECT goes to the head (`started_in_order`); and that no two
commands of a client, queued or waiting for their response, bear the same message id
(`uses_le_one`). For the second one the search for a free id is studied by itself
(`assignMsgId_eq_none_iff`, `assignMsgId_eq_zero_iff`).

A call is no single step. `MQTTAsync_assignMsgId` gives the mutex back before `MQTTAsync_addCommand`
puts the command into the queue, and in the callback of `MQTTAsync_writeComplete` nobody has the
mutex. So a call is a search for an id, the storing of this id, and the queueing of the command;
together they are the call in one step (`run_call`). Calls may overlap as they like, but ids are
kept apart only if they do not.

`accepted` and `started` are traces: the commands that calls have put at the end of the queue, and
the ones the send thread has taken.
-/

open Bytes

namespace Paho

/-- The commands of a client that keep their place in the queue. -/
def ofClient (h : ℕ) (commands : List Command) : List Command :=
  commands.filter fun cmd ↦ cmd.client = h && !cmd.goesFirst

/-- How often a message id is in use by a client: in the queue, and waiting for a response. -/
def uses (p : Paho) (h msgid : ℕ) : ℕ :=
  (p.commands.countP fun cmd ↦ cmd.client = h && cmd.token = msgid) +
    (p.handle h).responses.countP fun cmd ↦ cmd.token = msgid

theorem ofClient_addCommand (p : Paho) {command : Command} (hfirst : command.goesFirst = true)
    (k : ℕ) : ofClient k (p.mqttAsyncAddCommand command).commands = ofClient k p.commands := by
  rw [mqttAsyncAddCommand, if_pos hfirst]
  rcases p.commands.head? with - | head
  · simp [ofClient, hfirst]
  · dsimp only
    split_ifs
    · rfl
    · simp [ofClient, hfirst]

/-- What a step of Paho's threads does to the queue, when it has taken the command that it runs: the
commands of a client stay or, in a clean session, are all thrown away. -/
structure Sheds (p p' : Paho) : Prop where
  /-- The commands of a client stay, or a clean session throws them away. -/
  queue : ∀ k, ofClient k p'.commands = ofClient k p.commands ∨
    (p.client k).cleansession = true ∧ ofClient k p'.commands = []
  /-- Whether a clean session is asked for stays. -/
  cleansession : ∀ k, (p'.client k).cleansession = (p.client k).cleansession
  /-- No id is given; a clean session starts again. -/
  msgID : ∀ k, (p'.client k).msgID ≤ (p.client k).msgID
  /-- No id is used more often than before. -/
  uses : ∀ k msgid, msgid ≠ 0 → p'.uses k msgid ≤ p.uses k msgid

namespace Sheds

variable {p p' p'' : Paho} {h : ℕ}

theorem refl (p : Paho) : p.Sheds p :=
  ⟨fun _ ↦ .inl rfl, fun _ ↦ rfl, fun _ ↦ le_rfl, fun _ _ _ ↦ le_rfl⟩

theorem trans (h₁ : p.Sheds p') (h₂ : p'.Sheds p'') : p.Sheds p'' where
  queue k := by
    obtain hk | ⟨hclean, hk⟩ := h₂.queue k
    · exact (h₁.queue k).imp (hk.trans ·) fun ⟨hclean, hnil⟩ ↦ ⟨hclean, hk.trans hnil⟩
    · exact .inr ⟨(h₁.cleansession k).symm.trans hclean, hk⟩
  cleansession k := (h₂.cleansession k).trans (h₁.cleansession k)
  msgID k := (h₂.msgID k).trans (h₁.msgID k)
  uses k msgid hne := (h₂.uses k msgid hne).trans (h₁.uses k msgid hne)

/-- A record whose responses are some of those before. -/
theorem setHandle (p : Paho) (h : ℕ) {m : MqttAsyncs}
    (hclean : m.c.cleansession = (p.client h).cleansession) (hid : m.c.msgID ≤ (p.client h).msgID)
    (hresponses : m.responses.Sublist (p.handle h).responses) : p.Sheds (p.setHandle h m) := by
  refine ⟨fun _ ↦ .inl rfl, fun k ↦ ?_, fun k ↦ ?_, fun k msgid _ ↦ ?_⟩
  · rcases eq_or_ne k h with rfl | hne
    · rw [client_setHandle_self, hclean]
    · rw [client_setHandle_of_ne _ _ hne]
  · rcases eq_or_ne k h with rfl | hne
    · rwa [client_setHandle_self]
    · rw [client_setHandle_of_ne _ _ hne]
  · rw [Paho.uses, Paho.uses, handle_setHandle]
    rcases eq_or_ne k h with rfl | hne
    · rw [Function.update_self]
      exact Nat.add_le_add_left (hresponses.countP_le) _
    · rw [Function.update_of_ne hne]
      rfl

theorem setClient (p : Paho) (h : ℕ) {c : Clients}
    (hclean : c.cleansession = (p.client h).cleansession) (hid : c.msgID ≤ (p.client h).msgID) :
    p.Sheds (p.setClient h c) :=
  setHandle p h hclean hid (List.Sublist.refl _)

/-- A command that goes to the head leaves the others in their place, and bears no message id. -/
theorem addCommand (p : Paho) {command : Command} (hfirst : command.goesFirst = true)
    (htoken : command.token = 0) : p.Sheds (p.mqttAsyncAddCommand command) := by
  have hcons : p.Sheds { p with commands := command :: p.commands } := by
    refine ⟨fun k ↦ .inl ?_, fun _ ↦ rfl, fun _ ↦ le_rfl, fun k msgid hne ↦ ?_⟩
    · simp [ofClient, hfirst]
    · simp [Paho.uses, htoken, Ne.symm hne]
  rw [mqttAsyncAddCommand, if_pos hfirst]
  rcases p.commands.head? with - | head
  · exact hcons
  · dsimp only
    split_ifs
    · exact refl p
    · exact hcons

theorem addConnect (p : Paho) (h version : ℕ) :
    p.Sheds (p.mqttAsyncAddCommand ⟨h, 0, .connect version⟩) :=
  addCommand p rfl rfl

theorem disconnectInternal (p : Paho) (h : ℕ) : p.Sheds (p.mqttAsyncDisconnectInternal h) := by
  rw [mqttAsyncDisconnectInternal, mqttAsyncDisconnect1]
  split_ifs
  · exact addCommand p rfl rfl
  · exact refl p

theorem closeOnly (p : Paho) (h : ℕ) : p.Sheds (p.mqttAsyncCloseOnly h) :=
  setClient p h rfl le_rfl

/-- A clean session throws everything of its client away. -/
theorem cleanSession (p : Paho) (h : ℕ) (hclean : (p.client h).cleansession = true) :
    p.Sheds (p.mqttAsyncCleanSession h) := by
  have hset : p.Sheds (p.setClient h { p.client h with msgID := 0 }) :=
    setClient p h rfl (Nat.zero_le _)
  refine hset.trans ?_
  set q := p.setClient h { p.client h with msgID := 0 } with hq
  have hcleanq : (q.client h).cleansession = true := by rw [hset.cleansession, hclean]
  have hremove : q.Sheds (q.setHandle h { q.handle h with responses := [] }) :=
    setHandle q h rfl le_rfl (List.nil_sublist _)
  refine ⟨fun k ↦ ?_, hremove.cleansession, hremove.msgID, fun k msgid hne ↦ ?_⟩
  · show ofClient k (q.commands.filter fun cmd ↦ cmd.client ≠ h) = _ ∨ _
    rcases eq_or_ne k h with rfl | hkh
    · refine .inr ⟨hcleanq, List.filter_eq_nil_iff.2 fun cmd hcmd ↦ ?_⟩
      have hother := (List.mem_filter.1 hcmd).2
      simp_all
    · refine .inl ?_
      rw [ofClient, List.filter_filter]
      refine List.filter_congr fun cmd _ ↦ ?_
      by_cases hcmd : cmd.client = k
      · simp [hcmd, hkh]
      · simp [hcmd]
  · refine le_trans ?_ (hremove.uses k msgid hne)
    exact Nat.add_le_add_right (List.Sublist.countP_le List.filter_sublist) _

theorem closeSession (p : Paho) (h : ℕ) : p.Sheds (p.mqttAsyncCloseSession h) := by
  rw [mqttAsyncCloseSession]
  split_ifs with hclean
  · refine (closeOnly p h).trans (cleanSession _ h ?_)
    rw [(closeOnly p h).cleansession, hclean]
  · exact closeOnly p h

theorem connectFailed (p : Paho) (h : ℕ) : p.Sheds (p.connectFailed h).1 := by
  rw [Paho.connectFailed]
  split_ifs
  · exact (closeOnly p h).trans (addConnect _ h _)
  · exact closeSession p h

theorem takeResponse (p : Paho) (h msgId : ℕ) (callback : Command → Option Callback) :
    p.Sheds (p.takeResponse h msgId callback).1 := by
  rw [Paho.takeResponse]
  split
  · exact refl p
  · exact setHandle p h rfl le_rfl List.erase_sublist

theorem receiveConnack (p : Paho) (h rc : ℕ) : p.Sheds (p.receiveConnack h rc).1 := by
  rw [Paho.receiveConnack]
  split_ifs with hrc hclean
  · have hset := setClient p h (c := { p.client h with connected := true, connectState := 0 })
      rfl le_rfl
    exact hset.trans (cleanSession _ h (by rw [hset.cleansession, hclean]))
  · exact setClient p h rfl le_rfl
  · exact connectFailed p h

theorem processConnect (p : Paho) (h version : ℕ) (tcp : Tcp) :
    p.Sheds (p.processConnect h version tcp).1 := by
  rw [Paho.processConnect]
  split_ifs
  · exact setHandle p h rfl le_rfl (List.Sublist.refl _)
  all_goals
    cases tcp with
    | inProgress => exact setHandle p h rfl le_rfl (List.Sublist.refl _)
    | sent => exact setHandle p h rfl le_rfl (List.Sublist.refl _)
    | failed =>
      dsimp only
      split_ifs
      · exact addConnect p h _
      · exact refl p

theorem processDisconnect (p : Paho) (h : ℕ) (internal : Bool) :
    p.Sheds (p.processDisconnect h internal).1 := by
  rw [Paho.processDisconnect]
  split_ifs
  · exact closeSession p h
  · exact closeSession p h
  · exact closeSession p h
  · exact refl p

end Sheds

/-! ### The command that is run -/

/-- **The command that may run** is the first one of its client. -/
theorem first_of_nextCommand {p : Paho} {canSend : ℕ → Bool} {ignored : List ℕ}
    {commands : List Command} {command : Command}
    (h : p.nextCommand canSend ignored commands = some command) :
    command.client ∉ ignored ∧
      ∃ rest, commands.filter (fun cmd ↦ cmd.client = command.client) = command :: rest := by
  induction commands generalizing ignored with
  | nil => cases h
  | cons cmd rest ih =>
    rw [nextCommand] at h
    split_ifs at h with hignored hruns
    · obtain ⟨hnot, tail, htail⟩ := ih h
      have hne : ¬ cmd.client = command.client := fun he ↦ hnot (he ▸ hignored)
      exact ⟨hnot, tail, by rw [List.filter_cons_of_neg (by simpa using hne), htail]⟩
    · obtain rfl := Option.some.inj h
      exact ⟨hignored, _, List.filter_cons_of_pos (by simp)⟩
    · obtain ⟨hnot, tail, htail⟩ := ih h
      have hne : ¬ cmd.client = command.client := fun he ↦ hnot (he ▸ List.mem_cons_self ..)
      exact ⟨fun hmem ↦ hnot (List.mem_cons_of_mem _ hmem), tail, by
        rw [List.filter_cons_of_neg (by simpa using hne), htail]⟩

theorem ofClient_filter (h : ℕ) (commands : List Command) :
    ofClient h commands =
      (commands.filter fun cmd ↦ cmd.client = h).filter fun cmd ↦ !cmd.goesFirst := by
  rw [ofClient, List.filter_filter]
  exact List.filter_congr fun cmd _ ↦ Bool.and_comm ..

/-- Taking it takes the first one of its client. -/
theorem ofClient_erase {p : Paho} {canSend : ℕ → Bool} {command : Command}
    (h : p.nextCommand canSend [] p.commands = some command) (k : ℕ) :
    ofClient k [command] ++ ofClient k (p.commands.erase command) = ofClient k p.commands := by
  obtain ⟨-, rest, hrest⟩ := first_of_nextCommand h
  rcases eq_or_ne command.client k with rfl | hne
  · rw [ofClient_filter _ p.commands, ofClient_filter _ (p.commands.erase command),
      ← List.erase_filter, hrest, List.erase_cons_head]
    cases hfirst : command.goesFirst <;> simp [ofClient, hfirst]
  · have hnone : ofClient k [command] = [] := by simp [ofClient, hne]
    rw [hnone, ofClient, ofClient, ← List.erase_filter, List.nil_append, List.erase_of_not_mem]
    simp [hne]

/-- The ids in use, without the command that is taken. -/
theorem uses_erase {p : Paho} {command : Command} (hmem : command ∈ p.commands) (k msgid : ℕ) :
    uses { p with commands := p.commands.erase command } k msgid +
      (if command.client = k ∧ command.token = msgid then 1 else 0) = p.uses k msgid := by
  have hperm := List.perm_cons_erase hmem
  rw [uses, uses, hperm.countP_eq, List.countP_cons]
  by_cases hk : command.client = k ∧ command.token = msgid
  · simp [hk]
    omega
  · simp [hk]

/-- The command that a step takes from the queue. -/
def taken (p : Paho) : PahoEvent → List Command
  | .processCommand canSend _ _ => (p.nextCommand canSend [] p.commands).toList
  | _ => []

/-- What a step of Paho's threads does to the queue. -/
structure Runs (p : Paho) (taken : List Command) (p' : Paho) : Prop where
  /-- The commands of a client that are taken are its first ones, and the others stay or are thrown
  away. -/
  queue : ∀ k, ofClient k taken ++ ofClient k p'.commands = ofClient k p.commands ∨
    (p.client k).cleansession = true ∧ ofClient k p'.commands = [] ∧
      ofClient k taken <+: ofClient k p.commands
  /-- Whether a clean session is asked for stays. -/
  cleansession : ∀ k, (p'.client k).cleansession = (p.client k).cleansession
  /-- No id is given; a clean session starts again. -/
  msgID : ∀ k, (p'.client k).msgID ≤ (p.client k).msgID
  /-- No id is used more often than before. -/
  uses : ∀ k msgid, msgid ≠ 0 → p'.uses k msgid ≤ p.uses k msgid

/-- A step that takes no command. -/
theorem Sheds.runs {p p' : Paho} (h : p.Sheds p') : p.Runs [] p' :=
  ⟨fun k ↦ (h.queue k).imp id fun ⟨hclean, hnil⟩ ↦ ⟨hclean, hnil, List.nil_prefix⟩,
    h.cleansession, h.msgID, h.uses⟩

/-- A command is taken, and what comes of it may use its message id. -/
theorem runs_of_taken {p p' : Paho} {canSend : ℕ → Bool} {command : Command}
    (h : p.nextCommand canSend [] p.commands = some command)
    (hqueue : ∀ k, ofClient k p'.commands = ofClient k (p.commands.erase command) ∨
      (p.client k).cleansession = true ∧ ofClient k p'.commands = [])
    (hclean : ∀ k, (p'.client k).cleansession = (p.client k).cleansession)
    (hid : ∀ k, (p'.client k).msgID ≤ (p.client k).msgID)
    (huses : ∀ k msgid, msgid ≠ 0 → p'.uses k msgid ≤
      uses { p with commands := p.commands.erase command } k msgid +
        if command.client = k ∧ command.token = msgid then 1 else 0) : p.Runs [command] p' := by
  obtain ⟨-, rest, hrest⟩ := first_of_nextCommand h
  have hmem : command ∈ p.commands := by
    have hfilter : command ∈ p.commands.filter fun cmd ↦ cmd.client = command.client := by
      rw [hrest]
      exact List.mem_cons_self ..
    exact (List.mem_filter.1 hfilter).1
  refine ⟨fun k ↦ ?_, hclean, hid, fun k msgid hne ↦ ?_⟩
  · have herase := ofClient_erase h k
    refine (hqueue k).imp (fun hk ↦ by rw [hk, herase]) fun ⟨hc, hnil⟩ ↦ ⟨hc, hnil, ?_⟩
    rw [← herase]
    exact List.prefix_append ..
  · rw [← uses_erase hmem k msgid]
    exact huses k msgid hne

/-- A command that is put among the responses is used once more. -/
theorem uses_respond (p : Paho) (command : Command) (m : MqttAsyncs)
    (hm : m.responses = (p.handle command.client).responses ++ [command]) (k msgid : ℕ) :
    (p.setHandle command.client m).uses k msgid =
      p.uses k msgid + if command.client = k ∧ command.token = msgid then 1 else 0 := by
  rw [uses, uses, handle_setHandle]
  rcases eq_or_ne k command.client with rfl | hne
  · rw [Function.update_self, hm, List.countP_append]
    by_cases ht : command.token = msgid
    · simp [ht, setHandle]
      omega
    · simp [ht, setHandle]
  · rw [Function.update_of_ne hne]
    simp [Ne.symm hne, setHandle]

/-- A PUBLISH or SUBSCRIBE that is run waits for its response, or leaves nothing behind. -/
theorem processPacket_cases (p : Paho) (command : Command) (write : Write) :
    p.Sheds (p.processPacket command write).1 ∨
      ∃ m : MqttAsyncs, m.c = p.client command.client ∧
        m.responses = (p.handle command.client).responses ++ [command] ∧
        (p.processPacket command write).1 = p.setHandle command.client m := by
  unfold processPacket
  dsimp only
  split
  · exact .inl (Sheds.refl p)
  · exact .inr ⟨{ p.handle command.client with
      pendingWrite := true
      responses := (p.handle command.client).responses ++ [command] }, rfl, rfl, rfl⟩
  · exact .inl (Sheds.setHandle p _ rfl le_rfl (List.Sublist.refl _))
  · exact .inl (Sheds.disconnectInternal p _)
  · exact .inl (Sheds.disconnectInternal p _)
  · exact .inr ⟨{ p.handle command.client with
      responses := (p.handle command.client).responses ++ [command] }, rfl, rfl, rfl⟩

/-- The command waits for its response. -/
theorem runs_of_respond {p : Paho} {canSend : ℕ → Bool} {command : Command}
    (h : p.nextCommand canSend [] p.commands = some command) {m : MqttAsyncs}
    (hc : m.c = p.client command.client)
    (hm : m.responses = (p.handle command.client).responses ++ [command]) :
    p.Runs [command] (setHandle { p with commands := p.commands.erase command }
      command.client m) := by
  have hclient : ∀ k, (setHandle { p with commands := p.commands.erase command }
      command.client m).client k = p.client k := by
    intro k
    rcases eq_or_ne k command.client with rfl | hne
    · rw [client_setHandle_self, hc]
    · rw [client_setHandle_of_ne _ _ hne]
      rfl
  refine runs_of_taken h (fun k ↦ .inl rfl) (fun k ↦ by rw [hclient]) (fun k ↦ by rw [hclient])
    fun k msgid _ ↦ ?_
  exact (uses_respond { p with commands := p.commands.erase command } command m hm k msgid).le

/-- **One turn of the send thread.** -/
theorem processCommand_runs {p p' : Paho} {canSend : ℕ → Bool} {tcp : Tcp} {write : Write} {h : ℕ}
    {cb : Option Callback}
    (hstep : p.mqttAsyncProcessCommand canSend tcp write = some (p', h, cb)) :
    p.Runs (p.taken (.processCommand canSend tcp write)) p' := by
  rw [mqttAsyncProcessCommand, Option.map_eq_some_iff] at hstep
  obtain ⟨command, hnext, hdone⟩ := hstep
  set detached : Paho := { p with commands := p.commands.erase command } with hdetached
  have hsheds : detached.Sheds p' → p.Runs [command] p' := fun hs ↦
    runs_of_taken hnext hs.queue hs.cleansession hs.msgID fun k msgid hne ↦
      (hs.uses k msgid hne).trans (Nat.le_add_right _ _)
  rw [taken, hnext, Option.toList_some]
  obtain ⟨client, token, details⟩ := command
  cases details with
  | connect version =>
    obtain ⟨rfl, -⟩ := Prod.mk.inj hdone
    exact hsheds (Sheds.processConnect detached _ version tcp)
  | disconnect internal =>
    obtain ⟨rfl, -⟩ := Prod.mk.inj hdone
    exact hsheds (Sheds.processDisconnect detached _ internal)
  | publish destinationName payload qos retained =>
    obtain ⟨rfl, -⟩ := Prod.mk.inj hdone
    obtain hs | ⟨m, hc, hresponses, heq⟩ := detached.processPacket_cases _ write
    · exact hsheds hs
    · rw [heq]
      exact runs_of_respond hnext hc hresponses
  | subscribe topic qos =>
    obtain ⟨rfl, -⟩ := Prod.mk.inj hdone
    obtain hs | ⟨m, hc, hresponses, heq⟩ := detached.processPacket_cases _ write
    · exact hsheds hs
    · rw [heq]
      exact runs_of_respond hnext hc hresponses

/-- **Every step** of Paho's threads. -/
theorem runs_of_step {p p' : Paho} {e : PahoEvent} {h : ℕ} {cb : Option Callback}
    (hstep : p.step e = some (p', h, cb)) : p.Runs (p.taken e) p' := by
  cases e with
  | processCommand canSend tcp write => exact processCommand_runs hstep
  | connectTimeout k =>
    rw [step] at hstep
    split_ifs at hstep
    obtain ⟨rfl, -⟩ := Prod.mk.inj (Option.some.inj hstep)
    exact (Sheds.connectFailed p k).runs
  | connecting k ok =>
    rw [step] at hstep
    split_ifs at hstep
    · obtain ⟨rfl, -⟩ := Prod.mk.inj (Option.some.inj hstep)
      have hset : p.Sheds (p.setClient k { p.client k with connectState := 3 }) :=
        Sheds.setClient p k rfl le_rfl
      exact hset.runs
    · obtain ⟨rfl, -⟩ := Prod.mk.inj (Option.some.inj hstep)
      exact (Sheds.connectFailed p k).runs
  | cycleError k =>
    rw [step] at hstep
    split_ifs at hstep
    obtain ⟨rfl, -⟩ := Prod.mk.inj (Option.some.inj hstep)
    exact (Sheds.connectFailed p k).runs
  | receiveError k =>
    rw [step] at hstep
    split_ifs at hstep
    · obtain ⟨rfl, -⟩ := Prod.mk.inj (Option.some.inj hstep)
      exact (Sheds.disconnectInternal p k).runs
    · obtain ⟨rfl, -⟩ := Prod.mk.inj (Option.some.inj hstep)
      exact (Sheds.closeOnly p k).runs
  | connack k rc =>
    rw [step] at hstep
    split_ifs at hstep
    obtain ⟨rfl, -⟩ := Prod.mk.inj (Option.some.inj hstep)
    exact (Sheds.receiveConnack p k rc).runs
  | suback k msgId granted =>
    rw [step] at hstep
    split_ifs at hstep
    all_goals
      obtain ⟨rfl, -⟩ := Prod.mk.inj (Option.some.inj hstep)
      exact (Sheds.takeResponse p k msgId _).runs
  | puback k msgId =>
    rw [step] at hstep
    split_ifs at hstep
    obtain ⟨rfl, -⟩ := Prod.mk.inj (Option.some.inj hstep)
    exact (Sheds.takeResponse p k msgId _).runs
  | messageArrived k =>
    rw [step] at hstep
    split_ifs at hstep
    obtain ⟨rfl, -⟩ := Prod.mk.inj (Option.some.inj hstep)
    exact (Sheds.refl p).runs
  | writeComplete k =>
    rw [step] at hstep
    split_ifs at hstep
    rcases hresponses : (p.handle k).responses with - | ⟨command, rest⟩
    · simp [hresponses] at hstep
    · simp only [hresponses, Option.some.injEq, Prod.mk.injEq] at hstep
      obtain ⟨rfl, -⟩ := hstep
      have hset : p.Sheds (p.setHandle k
          { p.handle k with pendingWrite := false, responses := rest }) := by
        refine Sheds.setHandle p k rfl le_rfl ?_
        rw [hresponses]
        exact List.sublist_cons_self ..
      exact hset.runs
  | closeSession k =>
    rw [step] at hstep
    split_ifs at hstep
    obtain ⟨rfl, -⟩ := Prod.mk.inj (Option.some.inj hstep)
    exact (Sheds.disconnectInternal p k).runs

/-! ### The search for a message id -/

/-- The `i`th id that the search comes to. -/
def idAfter (start i : ℕ) : ℕ := (start + i) % maxMsgId + 1

theorem idAfter_zero {start : ℕ} (hstart : start ≤ maxMsgId) :
    idAfter start 0 = nextMsgId start := by
  rw [idAfter, nextMsgId, maxMsgId] at *
  split_ifs <;> omega

theorem nextMsgId_idAfter (start i : ℕ) : nextMsgId (idAfter start i) = idAfter start (i + 1) := by
  rw [nextMsgId, idAfter, idAfter, maxMsgId]
  split_ifs <;> omega

/-- An id comes up. -/
theorem exists_idAfter (start : ℕ) {msgid : ℕ} (hpos : 0 < msgid) (hle : msgid ≤ maxMsgId) :
    ∃ i < maxMsgId, idAfter start i = msgid := by
  rw [maxMsgId] at hle
  refine ⟨(msgid - 1 + maxMsgId - start % maxMsgId) % maxMsgId, ?_, ?_⟩
  · rw [maxMsgId]
    omega
  · rw [idAfter, maxMsgId]
    omega

/-- The search is back at its start after all the others. -/
theorem idAfter_eq_start_iff {start i : ℕ} (hpos : 0 < start) (hstart : start ≤ maxMsgId)
    (hi : i < maxMsgId) : idAfter start i = start ↔ i + 1 = maxMsgId := by
  rw [idAfter, maxMsgId] at *
  omega

theorem idAfter_pos (start i : ℕ) : 0 < idAfter start i := Nat.succ_pos _

theorem idAfter_le (start i : ℕ) : idAfter start i ≤ maxMsgId := by
  rw [idAfter, maxMsgId]
  omega

section Search

variable {p : Paho} {h start : ℕ}

/-- The search finds an id that is not in use. -/
theorem assignMsgIdLoop_free {fuel i msgid : ℕ}
    (hloop : p.assignMsgIdLoop h start fuel (idAfter start i) = some msgid) (hne : msgid ≠ 0) :
    (∃ j, msgid = idAfter start j) ∧ p.msgIdInUse h msgid = false := by
  induction fuel generalizing i with
  | zero => cases hloop
  | succ fuel ih =>
    rw [assignMsgIdLoop, nextMsgId_idAfter] at hloop
    split_ifs at hloop with huse hback
    · exact absurd (Option.some.inj hloop).symm hne
    · exact ih hloop
    · obtain rfl := Option.some.inj hloop
      exact ⟨⟨i, rfl⟩, by simpa using huse⟩

/-- From 0 the search never comes back, so it runs out exactly if all that it comes to is in use. -/
theorem assignMsgIdLoop_zero {fuel i : ℕ} :
    (p.assignMsgIdLoop h 0 fuel (idAfter 0 i) = none ↔
      ∀ j < fuel, p.msgIdInUse h (idAfter 0 (i + j)) = true) ∧
    p.assignMsgIdLoop h 0 fuel (idAfter 0 i) ≠ some 0 := by
  induction fuel generalizing i with
  | zero => simp [assignMsgIdLoop]
  | succ fuel ih =>
    have hback : idAfter 0 (i + 1) ≠ 0 := (idAfter_pos 0 (i + 1)).ne'
    rw [assignMsgIdLoop, nextMsgId_idAfter, if_neg hback]
    split_ifs with huse
    · refine ⟨(ih (i := i + 1)).1.trans ?_, ih.2⟩
      constructor
      · intro hall j hj
        cases j with
        | zero => exact huse
        | succ j =>
          have := hall j (by omega)
          rwa [show i + 1 + j = i + (j + 1) by omega] at this
      · intro hall j hj
        have := hall (j + 1) (by omega)
        rwa [show i + (j + 1) = i + 1 + j by omega] at this
    · refine ⟨⟨nofun, fun hall ↦ absurd (hall 0 (by omega)) huse⟩, fun hzero ↦ ?_⟩
      exact absurd (Option.some.inj hzero) (idAfter_pos 0 i).ne'

/-- From any other id it comes back to where it started, and fails exactly if all the others are in
use. -/
theorem assignMsgIdLoop_pos (hpos : 0 < start) (hstart : start ≤ maxMsgId) {fuel i : ℕ}
    (hfuel : i + fuel = maxMsgId) (hi : i + 1 < maxMsgId) :
    p.assignMsgIdLoop h start fuel (idAfter start i) ≠ none ∧
    (p.assignMsgIdLoop h start fuel (idAfter start i) = some 0 ↔
      ∀ j, i ≤ j → j + 1 < maxMsgId → p.msgIdInUse h (idAfter start j) = true) := by
  induction fuel generalizing i with
  | zero => omega
  | succ fuel ih =>
    rw [assignMsgIdLoop, nextMsgId_idAfter]
    split_ifs with huse hback
    · have hlast := (idAfter_eq_start_iff hpos hstart hi).1 hback
      refine ⟨Option.some_ne_none _, iff_of_true rfl fun j hij hj ↦ ?_⟩
      obtain rfl : j = i := by omega
      exact huse
    · have hnext : i + 1 + 1 < maxMsgId := by
        have := (idAfter_eq_start_iff hpos hstart hi).not.1 hback
        omega
      obtain ⟨hsome, hzero⟩ := ih (by omega) hnext
      refine ⟨hsome, hzero.trans ⟨fun hall j hij hj ↦ ?_, fun hall j hij hj ↦ ?_⟩⟩
      · rcases eq_or_lt_of_le hij with rfl | hlt
        · exact huse
        · exact hall j hlt hj
      · exact hall j (by omega) hj
    · refine ⟨Option.some_ne_none _, iff_of_false (fun hzero ↦ ?_) fun hall ↦ ?_⟩
      · exact absurd (Option.some.inj hzero) (idAfter_pos start i).ne'
      · exact huse (hall i le_rfl hi)

/-- **The search does not end** exactly if the client has not been given an id yet and all ids are
in use. -/
theorem assignMsgId_eq_none_iff (hid : (p.client h).msgID ≤ maxMsgId) :
    p.mqttAsyncAssignMsgId h = none ↔
      (p.client h).msgID = 0 ∧ ∀ msgid, 0 < msgid → msgid ≤ maxMsgId → p.msgIdInUse h msgid := by
  rw [mqttAsyncAssignMsgId, Option.map_eq_none_iff, ← idAfter_zero hid]
  rcases Nat.eq_zero_or_pos (p.client h).msgID with hzero | hpos
  · rw [hzero, assignMsgIdLoop_zero.1]
    refine ⟨fun hall ↦ ⟨rfl, fun msgid hpos hle ↦ ?_⟩, fun hall j _ ↦ ?_⟩
    · obtain ⟨i, hi, rfl⟩ := exists_idAfter 0 hpos hle
      simpa using hall i hi
    · exact hall.2 _ (idAfter_pos ..) (idAfter_le ..)
  · have hsome := (assignMsgIdLoop_pos (p := p) (h := h) hpos hid (Nat.zero_add maxMsgId)
      (by decide)).1
    exact iff_of_false hsome fun hall ↦ hpos.ne' hall.1

/-- The ids up to some number are in use, by commands of client 1. -/
def exhausted (count : ℕ) : Paho :=
  { Paho.init with
    commands := (List.range (count + 1)).map fun msgid ↦ ⟨1, msgid, .subscribe [] 0⟩ }

theorem msgIdInUse_exhausted {count msgid : ℕ} (hle : msgid ≤ count) (c : Clients) :
    ((exhausted count).setClient 0 c).msgIdInUse 0 msgid = true := by
  have hqueued : ((exhausted count).setClient 0 c).commands =
      (List.range (count + 1)).map fun msgid ↦ ⟨1, msgid, .subscribe [] 0⟩ := rfl
  rw [msgIdInUse, Bool.or_eq_true, hqueued, List.any_map, List.any_eq_true]
  exact .inl ⟨msgid, List.mem_range.2 (Nat.lt_succ_of_le hle), by simp⟩

/-- The first request of client 0 then never comes back. -/
theorem assignMsgId_exhausted :
    ((exhausted maxMsgId).setClient 0 ⟨[], true, 0, false, 60, 0⟩).mqttAsyncAssignMsgId 0 =
      none := by
  have hid := client_setClient_self (exhausted maxMsgId) 0 ⟨[], true, 0, false, 60, 0⟩
  refine (assignMsgId_eq_none_iff ?_).2 ⟨?_, fun msgid _ hle ↦ msgIdInUse_exhausted hle _⟩
  · rw [hid]
    exact Nat.zero_le _
  · rw [hid]

/-- **It fails** exactly if all ids except the one given last are in use; that one is not tried. -/
theorem assignMsgId_eq_zero_iff (hid : (p.client h).msgID ≤ maxMsgId) :
    (∃ q, p.mqttAsyncAssignMsgId h = some (0, q)) ↔
      (p.client h).msgID ≠ 0 ∧ ∀ msgid, 0 < msgid → msgid ≤ maxMsgId →
        msgid ≠ (p.client h).msgID → p.msgIdInUse h msgid := by
  have hfails : (∃ q, p.mqttAsyncAssignMsgId h = some (0, q)) ↔
      p.assignMsgIdLoop h (p.client h).msgID maxMsgId (idAfter (p.client h).msgID 0) = some 0 := by
    rw [mqttAsyncAssignMsgId, idAfter_zero hid]
    simp only [Option.map_eq_some_iff, Prod.mk.injEq]
    constructor
    · rintro ⟨q, msgid, hloop, rfl, -⟩
      exact hloop
    · exact fun hloop ↦ ⟨_, 0, hloop, rfl, rfl⟩
  rw [hfails]
  rcases Nat.eq_zero_or_pos (p.client h).msgID with hzero | hpos
  · rw [hzero]
    exact iff_of_false assignMsgIdLoop_zero.2 fun hall ↦ hall.1 rfl
  · rw [(assignMsgIdLoop_pos hpos hid (Nat.zero_add maxMsgId) (by decide)).2]
    refine ⟨fun hall ↦ ⟨hpos.ne', fun msgid hmpos hle hne ↦ ?_⟩, fun hall j _ hj ↦ ?_⟩
    · obtain ⟨i, hi, rfl⟩ := exists_idAfter (p.client h).msgID hmpos hle
      refine hall i (Nat.zero_le _) ?_
      have := (idAfter_eq_start_iff hpos hid hi).not.1 hne
      omega
    · refine hall.2 _ (idAfter_pos ..) (idAfter_le ..) fun he ↦ ?_
      have := (idAfter_eq_start_iff hpos hid (by omega)).1 he
      omega

/-- A later one fails. -/
theorem assignMsgId_exhausted_again :
    ∃ q, ((exhausted maxMsgId).setClient 0 ⟨[], true, 0, false, 60, 5⟩).mqttAsyncAssignMsgId 0 =
      some (0, q) := by
  have hid := client_setClient_self (exhausted maxMsgId) 0 ⟨[], true, 0, false, 60, 5⟩
  refine (assignMsgId_eq_zero_iff ?_).2 ⟨?_, fun msgid _ hle _ ↦ msgIdInUse_exhausted hle _⟩
  · rw [hid]
    decide
  · rw [hid]
    decide

/-- The id that is found is remembered. -/
theorem assignMsgId_eq {msgid : ℕ} {q : Paho}
    (hassign : p.mqttAsyncAssignMsgId h = some (msgid, q)) (hne : msgid ≠ 0) :
    q = p.setClient h { p.client h with msgID := msgid } := by
  rw [mqttAsyncAssignMsgId, Option.map_eq_some_iff] at hassign
  obtain ⟨id, -, hq⟩ := hassign
  obtain ⟨rfl, rfl⟩ := Prod.mk.inj hq
  exact if_pos hne

/-- It is in range and not in use. -/
theorem assignMsgId_free (hid : (p.client h).msgID ≤ maxMsgId) {msgid : ℕ} {q : Paho}
    (hassign : p.mqttAsyncAssignMsgId h = some (msgid, q)) (hne : msgid ≠ 0) :
    msgid ≤ maxMsgId ∧ p.msgIdInUse h msgid = false := by
  rw [mqttAsyncAssignMsgId, Option.map_eq_some_iff] at hassign
  obtain ⟨id, hloop, hq⟩ := hassign
  obtain ⟨rfl, rfl⟩ := Prod.mk.inj hq
  rw [← idAfter_zero hid] at hloop
  obtain ⟨⟨j, hj⟩, hfree⟩ := assignMsgIdLoop_free hloop hne
  exact ⟨hj ▸ idAfter_le .., hfree⟩

end Search

end Paho

/-! ### What the application asks -/

namespace Paho

/-- `m->c->msgID = msgid`, unless there is no id. -/
def storeMsgId (p : Paho) (command : Command) : Paho :=
  if command.token ≠ 0 then
    p.setClient command.client { p.client command.client with msgID := command.token }
  else p

/-- A command that is no CONNECT or internal DISCONNECT is put at the end of the queue. -/
theorem addCommand_last {p q : Paho} {c : Command} (hlast : c.goesFirst = false)
    (hq : q.commands = p.commands) :
    (q.mqttAsyncAddCommand c).commands = p.commands ++ [c] := by
  rw [mqttAsyncAddCommand_commands hlast, hq]

theorem commands_storeMsgId (p : Paho) (command : Command) :
    (p.storeMsgId command).commands = p.commands := by
  rw [storeMsgId]
  split_ifs <;> rfl

/-- **A request that Paho accepts**: an id that is not in use is stored, where it needs one, and its
command is put at the end of the queue. -/
theorem queued_of_call {p p' : Paho} {h : ℕ} {op : Api} (hcall : op.call p h = .done p') :
    ∃ command, command.client = h ∧ command.goesFirst = false ∧
      p' = (p.storeMsgId command).mqttAsyncAddCommand command ∧
      (command.token = 0 ∨ op.assignsMsgId = true ∧
        ∃ q, p.mqttAsyncAssignMsgId h = some (command.token, q) ∧ command.token ≠ 0) := by
  cases op with
  | disconnect =>
    simp only [Api.call, mqttAsyncDisconnect1] at hcall
    split_ifs at hcall
    obtain rfl := Outcome.done.inj hcall
    exact ⟨⟨h, 0, .disconnect false⟩, rfl, rfl, rfl, .inl rfl⟩
  | publish topic payload qos retain =>
    simp only [Api.call, Wrapper.strToCstr] at hcall
    split_ifs at hcall
    rcases hsend : p.mqttAsyncSend h topic (toInt32 payload.length) payload (qos.getD 0)
      (retain.getD false).toNat with r | rc | - <;> simp only [hsend, reduceCtorEq] at hcall
    obtain rfl := Outcome.done.inj hcall
    rw [mqttAsyncSend] at hsend
    rcases hid : (if qos.getD 0 > 0 then p.mqttAsyncAssignMsgId h else some (0, p)) with
      - | ⟨msgid, q⟩ <;> simp only [hid] at hsend
    · split_ifs at hsend
    · split_ifs at hsend with _ _ _ hzero
      obtain rfl := Called.success.inj hsend
      split_ifs at hid with hqos
      · have hne : msgid ≠ 0 := by simpa [hqos] using hzero
        refine ⟨⟨h, msgid, .publish topic (payload.take (toInt32 payload.length).toNat)
          (qos.getD 0).toNat (retain.getD false).toNat⟩, rfl, rfl, ?_,
          .inr ⟨decide_eq_true hqos, q, hid, hne⟩⟩
        rw [storeMsgId, if_pos hne, assignMsgId_eq hid hne]
      · obtain ⟨rfl, rfl⟩ := Prod.mk.inj (Option.some.inj hid)
        exact ⟨_, rfl, rfl, rfl, .inl rfl⟩
  | subscribe topic qos =>
    simp only [Api.call, Wrapper.strToCstr] at hcall
    split_ifs at hcall
    rcases hsubscribe : p.mqttAsyncSubscribe h topic (qos.getD 0) with r | rc | - <;>
      simp only [hsubscribe, reduceCtorEq] at hcall
    obtain rfl := Outcome.done.inj hcall
    rw [mqttAsyncSubscribe] at hsubscribe
    rcases hid : p.mqttAsyncAssignMsgId h with - | ⟨msgid, q⟩ <;> simp only [hid] at hsubscribe
    · split_ifs at hsubscribe
    · split_ifs at hsubscribe with _ _ _ hne
      obtain rfl := Called.success.inj hsubscribe
      refine ⟨⟨h, msgid, .subscribe topic (qos.getD 0).toNat⟩, rfl, rfl, ?_,
        .inr ⟨rfl, q, rfl, hne⟩⟩
      rw [storeMsgId, if_pos hne, assignMsgId_eq hid hne]

end Paho

/-! ### The machine -/

namespace CommandQueue

/-- A call that has its command, under the id that it has found, and has not queued it. -/
structure Request where
  /-- The command. -/
  command : Command
  /-- Whether the mutex is held until the id is stored. -/
  locked : Bool
  /-- Whether the client remembers the id as the last one given. -/
  stored : Bool

/-- Paho with the calls that are under way and the traces. -/
structure State where
  /-- The library. -/
  paho : Paho
  /-- The calls that have not queued their commands. -/
  requests : List Request
  /-- Trace: what calls have put at the end of the queue, in order. -/
  accepted : List Command
  /-- Trace: what the send thread has taken, in order. -/
  started : List Command

/-- What can happen. -/
inductive Event where
  /-- A client is created. -/
  | create (serverURI clientId : Bytes)
  /-- A client is asked to connect. -/
  | connect (h : ℕ) (keepAliveInterval : ℤ) (cleansession : Bool)
  /-- A request on a connection is checked, and an id is found for it. `locked` says whether this is
  under the mutex, which it is not in the callback of `MQTTAsync_writeComplete`. -/
  | call (h : ℕ) (op : Api) (locked : Bool)
  /-- The id of a request is stored. -/
  | store (n : ℕ)
  /-- The command of a request is put into the queue. -/
  | queue (n : ℕ)
  /-- A step of Paho's threads. -/
  | paho (e : PahoEvent)

/-- The event asks for no clean session. -/
def Event.Keeps : Event → Prop
  | .connect _ _ cleansession => cleansession = false
  | _ => True

/-- One step. -/
def step (s : State) : Event → Option State
  | .create serverURI clientId =>
    some { s with paho := (s.paho.mqttAsyncCreate serverURI clientId).2 }
  | .connect h keepAliveInterval cleansession =>
    if h < s.paho.count then
      some { s with paho := s.paho.mqttAsyncConnect h keepAliveInterval cleansession }
    else none
  | .call h op locked =>
    if locked && s.requests.any fun r ↦ r.locked && !r.stored then none
    else
      match op.call s.paho h with
      | .done p => some { s with
          requests := s.requests ++
            (p.commands.drop s.paho.commands.length).map fun command ↦ ⟨command, locked, false⟩ }
      | _ => none
  | .store n =>
    match s.requests[n]? with
    | none => none
    | some r =>
      if r.stored then none
      else some { s with
        paho := s.paho.storeMsgId r.command
        requests := s.requests.set n { r with stored := true } }
  | .queue n =>
    match s.requests[n]? with
    | none => none
    | some r =>
      if r.stored then
        some { s with
          paho := s.paho.mqttAsyncAddCommand r.command
          requests := s.requests.eraseIdx n
          accepted := s.accepted ++ [r.command] }
      else none
  | .paho e =>
    (s.paho.step e).map fun r ↦ { s with
      paho := r.1
      started := s.started ++ s.paho.taken e }

/-- The machine of the queue. -/
def machine : Machine State Event where
  step := step

/-- The library before its first handle. -/
def init : State := ⟨.init, [], [], []⟩

/-- **The guard.** An id is looked for under the mutex, and not while another call of the client
has one that it has not queued. -/
def Serial (s : State) : Event → Prop
  | .call h op locked =>
    op.assignsMsgId = true →
      locked = true ∧ ∀ r ∈ s.requests, r.command.client = h → r.command.token = 0
  | _ => True

instance decidableSerial (s : State) : ∀ e : Event, Decidable (Serial s e)
  | .call _ op _ => inferInstanceAs (Decidable (op.assignsMsgId = true → _ ∧ _))
  | .create _ _ | .connect _ _ _ | .store _ | .queue _ | .paho _ => .isTrue trivial

/-- How often a message id is in use by a client, or about to be. -/
def reserved (s : State) (h msgid : ℕ) : ℕ :=
  s.paho.uses h msgid +
    (s.requests.map Request.command).countP fun cmd ↦ cmd.client = h && cmd.token = msgid

/-- **The invariant** of all runs. -/
structure Sound (s : State) : Prop where
  /-- The commands of a client are started in order. -/
  queue : ∀ h, (Paho.ofClient h s.started ++ Paho.ofClient h s.paho.commands).Sublist
    (Paho.ofClient h s.accepted)
  /-- The id given last is in range. -/
  msgID : ∀ h, (s.paho.client h).msgID ≤ maxMsgId
  /-- What is in use is in range. -/
  inRange : ∀ h msgid, s.paho.uses h msgid ≠ 0 → msgid ≤ maxMsgId
  /-- What is about to be in use is in range. -/
  requests : ∀ r ∈ s.requests, r.command.token ≤ maxMsgId
  /-- What is requested goes to the end of the queue. -/
  last : ∀ r ∈ s.requests, r.command.goesFirst = false

/-- **The invariant** of the runs in which the calls of a client do not overlap: no id is in use
twice, or about to be. -/
def Once (s : State) : Prop := ∀ h msgid, msgid ≠ 0 → reserved s h msgid ≤ 1

/-- Nothing has been thrown away. -/
structure Whole (s : State) : Prop where
  /-- No clean session has been asked for. -/
  cleansession : ∀ h, (s.paho.client h).cleansession = false
  /-- What has not been started is still in the queue. -/
  queue : ∀ h, Paho.ofClient h s.started ++ Paho.ofClient h s.paho.commands =
    Paho.ofClient h s.accepted

/-- What the calls that queue no command, and the steps that take one, do to ids. -/
theorem Sound.of_uses {s s' : State} (hs : Sound s)
    (hqueue : ∀ h, (Paho.ofClient h s'.started ++ Paho.ofClient h s'.paho.commands).Sublist
      (Paho.ofClient h s'.accepted))
    (hid : ∀ h, (s'.paho.client h).msgID ≤ maxMsgId)
    (huses : ∀ h msgid, msgid ≠ 0 → s'.paho.uses h msgid ≤ s.paho.uses h msgid)
    (hrequests : s'.requests = s.requests) : Sound s' where
  queue := hqueue
  msgID := hid
  inRange h msgid hused := by
    rcases Nat.eq_zero_or_pos msgid with rfl | hpos
    · exact Nat.zero_le _
    · refine hs.inRange h msgid fun hzero ↦ hused ?_
      have := huses h msgid hpos.ne'
      omega
  requests r hr := hs.requests r (hrequests ▸ hr)
  last r hr := hs.last r (hrequests ▸ hr)

theorem Once.of_uses {s s' : State} (hs : Once s)
    (huses : ∀ h msgid, msgid ≠ 0 → s'.paho.uses h msgid ≤ s.paho.uses h msgid)
    (hrequests : s'.requests = s.requests) : Once s' := by
  intro h msgid hne
  rw [reserved, hrequests]
  exact (Nat.add_le_add_right (huses h msgid hne) _).trans (hs h msgid hne)

theorem ofClient_append (h : ℕ) (commands more : List Command) :
    Paho.ofClient h (commands ++ more) = Paho.ofClient h commands ++ Paho.ofClient h more :=
  List.filter_append ..

/-- A command that is queued uses its id once more. -/
theorem uses_of_queue {p p' : Paho} {command : Command}
    (hcommands : p'.commands = p.commands ++ [command])
    (hresponses : ∀ k, (p'.handle k).responses = (p.handle k).responses) (k msgid : ℕ) :
    p'.uses k msgid =
      p.uses k msgid + [command].countP fun cmd ↦ cmd.client = k && cmd.token = msgid := by
  rw [Paho.uses, Paho.uses, hcommands, hresponses, List.countP_append]
  omega

theorem uses_addCommand {p : Paho} {command : Command} (hlast : command.goesFirst = false)
    (k msgid : ℕ) : (p.mqttAsyncAddCommand command).uses k msgid =
      p.uses k msgid + [command].countP fun cmd ↦ cmd.client = k && cmd.token = msgid := by
  obtain ⟨commands, heq⟩ := p.mqttAsyncAddCommand_eq command
  exact uses_of_queue (Paho.addCommand_last hlast rfl) (fun _ ↦ by rw [heq]) k msgid

/-- An id that is not in use is used by nothing. -/
theorem uses_eq_zero {p : Paho} {h msgid : ℕ} (hfree : p.msgIdInUse h msgid = false) :
    p.uses h msgid = 0 := by
  rw [Paho.msgIdInUse, Bool.or_eq_false_iff, List.any_eq_false, List.any_eq_false] at hfree
  rw [Paho.uses, List.countP_eq_zero.2, List.countP_eq_zero.2]
  · intro cmd hmem
    simpa using hfree.2 cmd hmem
  · intro cmd hmem
    have hne := hfree.1 cmd hmem
    simp_all

/-! ### What a call does -/

/-- A call that finds its id. -/
theorem step_call {s s' : State} {h : ℕ} {op : Api} {locked : Bool}
    (hstep : step s (.call h op locked) = some s') :
    ∃ command, s' = { s with requests := s.requests ++ [⟨command, locked, false⟩] } ∧
      command.client = h ∧ command.goesFirst = false ∧
      (command.token = 0 ∨ op.assignsMsgId = true ∧
        ∃ q, s.paho.mqttAsyncAssignMsgId h = some (command.token, q) ∧ command.token ≠ 0) := by
  simp only [step] at hstep
  split_ifs at hstep
  rcases hcall : op.call s.paho h with p | err | - <;> simp only [hcall, reduceCtorEq] at hstep
  obtain ⟨command, hclient, hfirst, rfl, htoken⟩ := Paho.queued_of_call hcall
  obtain rfl := Option.some.inj hstep
  rw [Paho.addCommand_last hfirst (Paho.commands_storeMsgId ..), List.drop_left]
  exact ⟨command, rfl, hclient, hfirst, htoken⟩

/-- **A call that nothing comes in between** does what it does in one step. -/
theorem run_call {s : State} {h : ℕ} {op : Api} {p : Paho} (hcall : op.call s.paho h = .done p)
    (hidle : s.requests = []) :
    ∃ command, machine.run s [.call h op true, .store 0, .queue 0] =
      some { s with paho := p, accepted := s.accepted ++ [command] } := by
  obtain ⟨command, -, hfirst, rfl, -⟩ := Paho.queued_of_call hcall
  refine ⟨command, ?_⟩
  have hcommands := Paho.addCommand_last hfirst (Paho.commands_storeMsgId s.paho command)
  simp [Machine.run, machine, step, hcall, hidle, hcommands]

/-- A call that stores it. -/
theorem step_store {s s' : State} {n : ℕ} (hstep : step s (.store n) = some s') :
    ∃ r, s.requests[n]? = some r ∧ s' = { s with
      paho := s.paho.storeMsgId r.command
      requests := s.requests.set n { r with stored := true } } := by
  simp only [step] at hstep
  rcases hr : s.requests[n]? with - | r <;> simp only [hr, reduceCtorEq] at hstep
  split_ifs at hstep
  exact ⟨r, rfl, (Option.some.inj hstep).symm⟩

/-- A call that queues its command. -/
theorem step_queue {s s' : State} {n : ℕ} (hstep : step s (.queue n) = some s') :
    ∃ r, s.requests[n]? = some r ∧ s' = { s with
      paho := s.paho.mqttAsyncAddCommand r.command
      requests := s.requests.eraseIdx n
      accepted := s.accepted ++ [r.command] } := by
  simp only [step] at hstep
  rcases hr : s.requests[n]? with - | r <;> simp only [hr, reduceCtorEq] at hstep
  split_ifs at hstep
  exact ⟨r, rfl, (Option.some.inj hstep).symm⟩

theorem client_storeMsgId (p : Paho) (command : Command) (k : ℕ) :
    (p.storeMsgId command).client k = p.client k ∨
      (p.storeMsgId command).client k = { p.client k with msgID := command.token } := by
  rw [Paho.storeMsgId]
  split_ifs
  · rcases eq_or_ne k command.client with rfl | hne
    · exact .inr (Paho.client_setClient_self ..)
    · exact .inl (Paho.client_setClient_of_ne _ _ hne)
  · exact .inl rfl

theorem uses_storeMsgId (p : Paho) (command : Command) (k msgid : ℕ) :
    (p.storeMsgId command).uses k msgid = p.uses k msgid := by
  rw [Paho.storeMsgId]
  split_ifs
  · rw [Paho.uses, Paho.uses, Paho.setClient, Paho.handle_setHandle]
    rcases eq_or_ne k command.client with rfl | hne
    · rw [Function.update_self]
      rfl
    · rw [Function.update_of_ne hne]
      rfl
  · rfl

/-- Storing an id changes no command. -/
theorem map_command_set {requests : List Request} {n : ℕ} {r : Request}
    (hr : requests[n]? = some r) :
    (requests.set n { r with stored := true }).map Request.command =
      requests.map Request.command := by
  obtain ⟨hn, rfl⟩ := List.getElem?_eq_some_iff.1 hr
  have hself : (requests.set n requests[n]).map Request.command = requests.map Request.command := by
    rw [List.set_getElem_self]
  rwa [List.map_set] at hself ⊢

theorem mem_set_command {requests : List Request} {n : ℕ} {r x : Request}
    (hr : requests[n]? = some r) (hx : x ∈ requests.set n { r with stored := true }) :
    ∃ y ∈ requests, y.command = x.command := by
  have hmem := List.mem_map_of_mem hx (f := Request.command)
  rw [map_command_set hr] at hmem
  exact List.mem_map.1 hmem

/-- The traces after a command has been queued. -/
theorem order_of_queue {s : State} {command : Command} (hlast : command.goesFirst = false) (h : ℕ) :
    Paho.ofClient h s.started ++ Paho.ofClient h (s.paho.mqttAsyncAddCommand command).commands =
      Paho.ofClient h s.started ++ Paho.ofClient h s.paho.commands ++ Paho.ofClient h [command] ∧
    Paho.ofClient h (s.accepted ++ [command]) =
      Paho.ofClient h s.accepted ++ Paho.ofClient h [command] := by
  rw [Paho.addCommand_last hlast rfl, ofClient_append, ofClient_append, List.append_assoc]
  exact ⟨rfl, rfl⟩

section Connect

variable (p : Paho) (h : ℕ) (keepAliveInterval : ℤ) (cleansession : Bool)

/-- A CONNECT goes to the head, which leaves the other commands in their place. -/
theorem sheds_connect :
    (p.setClient h { p.client h with
      keepAliveInterval := keepAliveInterval
      cleansession := cleansession }).Sheds
      (p.mqttAsyncConnect h keepAliveInterval cleansession) :=
  Paho.Sheds.addConnect _ h 0

theorem ofClient_connect (k : ℕ) :
    Paho.ofClient k (p.mqttAsyncConnect h keepAliveInterval cleansession).commands =
      Paho.ofClient k p.commands := by
  rw [Paho.mqttAsyncConnect, Paho.ofClient_addCommand _ rfl]
  rfl

theorem client_connect (k : ℕ) :
    (p.mqttAsyncConnect h keepAliveInterval cleansession).client k =
      if k = h then { p.client h with
        keepAliveInterval := keepAliveInterval
        cleansession := cleansession }
      else p.client k := by
  rw [Paho.mqttAsyncConnect, Paho.client_addCommand]
  split_ifs with hk
  · rw [hk, Paho.client_setClient_self]
  · rw [Paho.client_setClient_of_ne _ _ hk]

theorem msgID_connect (k : ℕ) :
    ((p.mqttAsyncConnect h keepAliveInterval cleansession).client k).msgID =
      (p.client k).msgID := by
  rw [client_connect]
  split_ifs with hk
  · rw [hk]
  · rfl

theorem uses_connect_le (k : ℕ) {msgid : ℕ} (hne : msgid ≠ 0) :
    (p.mqttAsyncConnect h keepAliveInterval cleansession).uses k msgid ≤ p.uses k msgid := by
  refine ((sheds_connect p h keepAliveInterval cleansession).uses k msgid hne).trans ?_
  rw [Paho.uses, Paho.uses, Paho.setClient, Paho.handle_setHandle]
  rcases eq_or_ne k h with rfl | hkh
  · rw [Function.update_self]
    rfl
  · rw [Function.update_of_ne hkh]
    rfl

end Connect

section Create

variable (p : Paho) (serverURI clientId : Bytes)

theorem client_create_self :
    (p.mqttAsyncCreate serverURI clientId).2.client p.count = ⟨clientId, false, 0, false, 0, 0⟩ :=
  Paho.client_setHandle_self ..

theorem client_create_of_ne {k : ℕ} (hk : k ≠ p.count) :
    (p.mqttAsyncCreate serverURI clientId).2.client k = p.client k :=
  Paho.client_setHandle_of_ne _ _ hk

theorem uses_create_le (k msgid : ℕ) :
    (p.mqttAsyncCreate serverURI clientId).2.uses k msgid ≤ p.uses k msgid := by
  refine Nat.add_le_add_left ?_ _
  rcases eq_or_ne k p.count with rfl | hk
  · rw [Paho.mqttAsyncCreate, Paho.handle_setHandle, Function.update_self]
    exact Nat.zero_le _
  · rw [Paho.mqttAsyncCreate, Paho.handle_setHandle, Function.update_of_ne hk]

end Create

/-! ### What a call keeps -/

section Call

variable {s : State} {r : Request} {n : ℕ}

/-- An id that has been found is in range. -/
theorem Sound.call (hs : Sound s) {command : Command} {locked : Bool}
    (htoken : command.token ≤ maxMsgId) (hlast : command.goesFirst = false) :
    Sound { s with requests := s.requests ++ [⟨command, locked, false⟩] } := by
  refine ⟨hs.queue, hs.msgID, hs.inRange, fun r hr ↦ ?_, fun r hr ↦ ?_⟩
  · rcases List.mem_append.1 hr with hr | hr
    · exact hs.requests r hr
    · obtain rfl := List.mem_singleton.1 hr
      exact htoken
  · rcases List.mem_append.1 hr with hr | hr
    · exact hs.last r hr
    · obtain rfl := List.mem_singleton.1 hr
      exact hlast

/-- Storing it changes no command. -/
theorem Sound.store (hs : Sound s) (hr : s.requests[n]? = some r) :
    Sound { s with
      paho := s.paho.storeMsgId r.command
      requests := s.requests.set n { r with stored := true } } := by
  refine ⟨fun j ↦ ?_, fun j ↦ ?_, fun j msgid hused ↦ ?_, fun x hx ↦ ?_, fun x hx ↦ ?_⟩
  · show (Paho.ofClient j s.started ++ Paho.ofClient j _).Sublist _
    rw [Paho.commands_storeMsgId]
    exact hs.queue j
  · show ((s.paho.storeMsgId r.command).client j).msgID ≤ maxMsgId
    rcases client_storeMsgId s.paho r.command j with hsame | hstored
    · rw [hsame]
      exact hs.msgID j
    · rw [hstored]
      exact hs.requests r (List.mem_of_getElem? hr)
  · exact hs.inRange j msgid (uses_storeMsgId s.paho r.command j msgid ▸ hused)
  · obtain ⟨y, hy, hyx⟩ := mem_set_command hr hx
    exact hyx ▸ hs.requests y hy
  · obtain ⟨y, hy, hyx⟩ := mem_set_command hr hx
    exact hyx ▸ hs.last y hy

/-- The command that is queued uses an id that is in range. -/
theorem Sound.queued (hs : Sound s) (hr : s.requests[n]? = some r) :
    Sound { s with
      paho := s.paho.mqttAsyncAddCommand r.command
      requests := s.requests.eraseIdx n
      accepted := s.accepted ++ [r.command] } := by
  have hlast := hs.last r (List.mem_of_getElem? hr)
  refine ⟨fun j ↦ ?_, fun j ↦ ?_, fun j msgid hused ↦ ?_, fun x hx ↦ ?_, fun x hx ↦ ?_⟩
  · obtain ⟨hleft, hright⟩ := order_of_queue (s := s) hlast j
    show (Paho.ofClient j s.started ++ Paho.ofClient j _).Sublist (Paho.ofClient j _)
    rw [hleft, hright]
    exact (hs.queue j).append_right _
  · show ((s.paho.mqttAsyncAddCommand r.command).client j).msgID ≤ maxMsgId
    rw [Paho.client_addCommand]
    exact hs.msgID j
  · by_cases hself : msgid = r.command.token
    · exact hself ▸ hs.requests r (List.mem_of_getElem? hr)
    · refine hs.inRange j msgid fun hzero ↦ hused ?_
      show (s.paho.mqttAsyncAddCommand r.command).uses j msgid = 0
      rw [uses_addCommand hlast, hzero]
      simp [Ne.symm hself]
  · exact hs.requests x (List.mem_of_mem_eraseIdx hx)
  · exact hs.last x (List.mem_of_mem_eraseIdx hx)

/-- An id that is found is neither in use nor about to be, where the call meets the guard. -/
theorem Once.call (hs : Once s) (hsound : Sound s) {op : Api} {command : Command} {locked : Bool}
    (hserial : Serial s (.call command.client op locked))
    (htoken : command.token = 0 ∨ op.assignsMsgId = true ∧
      ∃ q, s.paho.mqttAsyncAssignMsgId command.client = some (command.token, q) ∧
        command.token ≠ 0) :
    Once { s with requests := s.requests ++ [⟨command, locked, false⟩] } := by
  intro j msgid hne
  have hafter : reserved { s with requests := s.requests ++ [⟨command, locked, false⟩] } j msgid =
      reserved s j msgid + [command].countP fun cmd ↦ cmd.client = j && cmd.token = msgid := by
    rw [reserved, reserved, List.map_append, List.countP_append, Nat.add_assoc]
    rfl
  rw [hafter]
  by_cases hself : command.client = j ∧ command.token = msgid
  · obtain ⟨rfl, rfl⟩ := hself
    obtain hzero | ⟨hassigns, q, hassign, -⟩ := htoken
    · exact absurd hzero hne
    have hfree := (Paho.assignMsgId_free (hsound.msgID _) hassign hne).2
    have hothers : (s.requests.map Request.command).countP
        (fun cmd ↦ cmd.client = command.client && cmd.token = command.token) = 0 := by
      refine List.countP_eq_zero.2 fun cmd hcmd hsame ↦ ?_
      obtain ⟨r, hr, rfl⟩ := List.mem_map.1 hcmd
      obtain ⟨hsame, htoken⟩ := Bool.and_eq_true_iff.1 hsame
      have hzero := (hserial hassigns).2 r hr (of_decide_eq_true hsame)
      exact hne ((of_decide_eq_true htoken).symm.trans hzero)
    rw [reserved, uses_eq_zero hfree, hothers, Nat.zero_add]
    exact List.countP_le_length
  · have hnone : ([command].countP fun cmd ↦ cmd.client = j && cmd.token = msgid) = 0 := by
      simpa using hself
    rw [hnone]
    exact hs j msgid hne

/-- What is queued was about to be in use. -/
theorem reserved_queued (hsound : Sound s) (hr : s.requests[n]? = some r) (h msgid : ℕ) :
    reserved { s with
      paho := s.paho.mqttAsyncAddCommand r.command
      requests := s.requests.eraseIdx n
      accepted := s.accepted ++ [r.command] } h msgid = reserved s h msgid := by
  have huses := uses_addCommand (p := s.paho) (hsound.last r (List.mem_of_getElem? hr)) h msgid
  obtain ⟨hn, rfl⟩ := List.getElem?_eq_some_iff.1 hr
  have hinsert := List.perm_insertIdx s.requests[n] (s.requests.eraseIdx n) (i := n)
    (by rw [List.length_eraseIdx_of_lt hn]; omega)
  rw [List.insertIdx_eraseIdx_getElem hn] at hinsert
  have hperm := (hinsert.map Request.command).countP_eq
    fun cmd ↦ cmd.client = h && cmd.token = msgid
  rw [reserved, reserved, huses, hperm, List.map_cons, Nat.add_assoc, ← List.countP_append]
  rfl

end Call

/-- **Every step** keeps the invariant. -/
theorem Sound.step {s s' : State} {e : Event} (hs : Sound s) (h : machine.step s e = some s') :
    Sound s' := by
  cases e with
  | create serverURI clientId =>
    obtain rfl := Option.some.inj h
    refine hs.of_uses hs.queue (fun k ↦ ?_) (fun k msgid _ ↦ ?_) rfl
    · rcases eq_or_ne k s.paho.count with rfl | hne
      · rw [client_create_self]
        exact Nat.zero_le _
      · rw [client_create_of_ne _ _ _ hne]
        exact hs.msgID k
    · exact uses_create_le ..
  | connect k keepAliveInterval cleansession =>
    simp only [machine, CommandQueue.step] at h
    split_ifs at h
    obtain rfl := Option.some.inj h
    refine hs.of_uses (fun j ↦ ?_) (fun j ↦ ?_) (fun j msgid hne ↦ ?_) rfl
    · show (Paho.ofClient j s.started ++ Paho.ofClient j _).Sublist _
      rw [ofClient_connect]
      exact hs.queue j
    · rw [msgID_connect]
      exact hs.msgID j
    · exact uses_connect_le _ _ _ _ _ hne
  | call k op locked =>
    obtain ⟨command, rfl, -, hlast, htoken⟩ := step_call h
    refine hs.call ?_ hlast
    obtain hzero | ⟨-, q, hassign, hne⟩ := htoken
    · exact hzero ▸ Nat.zero_le _
    · exact (Paho.assignMsgId_free (hs.msgID k) hassign hne).1
  | store n =>
    obtain ⟨r, hr, rfl⟩ := step_store h
    exact hs.store hr
  | queue n =>
    obtain ⟨r, hr, rfl⟩ := step_queue h
    exact hs.queued hr
  | paho e =>
    simp only [machine, CommandQueue.step, Option.map_eq_some_iff] at h
    obtain ⟨⟨p, k, cb⟩, hstep, rfl⟩ := h
    have hruns := Paho.runs_of_step hstep
    refine hs.of_uses (fun j ↦ ?_) (fun j ↦ (hruns.msgID j).trans (hs.msgID j)) hruns.uses rfl
    show (Paho.ofClient j (s.started ++ s.paho.taken e) ++ Paho.ofClient j p.commands).Sublist _
    rw [ofClient_append, List.append_assoc]
    obtain hqueue | ⟨-, hnil, hprefix⟩ := hruns.queue j
    · rw [hqueue]
      exact hs.queue j
    · rw [hnil, List.append_nil]
      exact ((List.Sublist.refl _).append hprefix.sublist).trans (hs.queue j)

/-- **Every step that meets the guard** keeps ids apart. -/
theorem Once.step {s s' : State} {e : Event} (hs : Once s) (hsound : Sound s) (hserial : Serial s e)
    (h : machine.step s e = some s') : Once s' := by
  cases e with
  | create serverURI clientId =>
    obtain rfl := Option.some.inj h
    exact hs.of_uses (fun k msgid _ ↦ uses_create_le ..) rfl
  | connect k keepAliveInterval cleansession =>
    simp only [machine, CommandQueue.step] at h
    split_ifs at h
    obtain rfl := Option.some.inj h
    exact hs.of_uses (fun j msgid hne ↦ uses_connect_le _ _ _ _ _ hne) rfl
  | call k op locked =>
    obtain ⟨command, rfl, rfl, -, htoken⟩ := step_call h
    exact hs.call hsound hserial htoken
  | store n =>
    obtain ⟨r, hr, rfl⟩ := step_store h
    intro j msgid hne
    rw [reserved, uses_storeMsgId, map_command_set hr]
    exact hs j msgid hne
  | queue n =>
    obtain ⟨r, hr, rfl⟩ := step_queue h
    exact fun j msgid hne ↦ (reserved_queued hsound hr j msgid).le.trans (hs j msgid hne)
  | paho e =>
    simp only [machine, CommandQueue.step, Option.map_eq_some_iff] at h
    obtain ⟨⟨p, k, cb⟩, hstep, rfl⟩ := h
    exact hs.of_uses (Paho.runs_of_step hstep).uses rfl

/-- Where no clean session is asked for, nothing is thrown away. -/
theorem Whole.step {s s' : State} {e : Event} (hs : Whole s) (hsound : Sound s) (hkeeps : e.Keeps)
    (h : machine.step s e = some s') : Whole s' := by
  cases e with
  | create serverURI clientId =>
    obtain rfl := Option.some.inj h
    refine ⟨fun k ↦ ?_, hs.queue⟩
    rcases eq_or_ne k s.paho.count with rfl | hne
    · rw [client_create_self]
    · rw [client_create_of_ne _ _ _ hne]
      exact hs.cleansession k
  | connect k keepAliveInterval cleansession =>
    simp only [machine, CommandQueue.step] at h
    split_ifs at h
    obtain rfl := Option.some.inj h
    refine ⟨fun j ↦ ?_, fun j ↦ ?_⟩
    · rw [client_connect]
      split_ifs
      · exact hkeeps
      · exact hs.cleansession j
    · show Paho.ofClient j s.started ++ Paho.ofClient j _ = _
      rw [ofClient_connect]
      exact hs.queue j
  | call k op locked =>
    obtain ⟨command, rfl, -⟩ := step_call h
    exact ⟨hs.cleansession, hs.queue⟩
  | store n =>
    obtain ⟨r, -, rfl⟩ := step_store h
    refine ⟨fun j ↦ ?_, fun j ↦ ?_⟩
    · show ((s.paho.storeMsgId r.command).client j).cleansession = false
      rcases client_storeMsgId s.paho r.command j with hsame | hstored
      · rw [hsame]
        exact hs.cleansession j
      · rw [hstored]
        exact hs.cleansession j
    · show Paho.ofClient j s.started ++ Paho.ofClient j _ = _
      rw [Paho.commands_storeMsgId]
      exact hs.queue j
  | queue n =>
    obtain ⟨r, hr, rfl⟩ := step_queue h
    refine ⟨fun j ↦ ?_, fun j ↦ ?_⟩
    · show ((s.paho.mqttAsyncAddCommand r.command).client j).cleansession = false
      rw [Paho.client_addCommand]
      exact hs.cleansession j
    · obtain ⟨hleft, hright⟩ := order_of_queue (s := s) (hsound.last r (List.mem_of_getElem? hr)) j
      exact hleft.trans (hright.trans (congrArg (· ++ _) (hs.queue j).symm)).symm
  | paho e =>
    simp only [machine, CommandQueue.step, Option.map_eq_some_iff] at h
    obtain ⟨⟨p, k, cb⟩, hstep, rfl⟩ := h
    have hruns := Paho.runs_of_step hstep
    refine ⟨fun j ↦ (hruns.cleansession j).trans (hs.cleansession j), fun j ↦ ?_⟩
    show Paho.ofClient j (s.started ++ s.paho.taken e) ++ Paho.ofClient j p.commands = _
    rw [ofClient_append, List.append_assoc]
    obtain hqueue | ⟨hclean, -⟩ := hruns.queue j
    · rw [hqueue]
      exact hs.queue j
    · rw [hs.cleansession j] at hclean
      cases hclean

theorem sound_init : Sound init :=
  ⟨fun _ ↦ List.Sublist.refl _, fun _ ↦ Nat.zero_le _, fun _ _ hused ↦ absurd rfl hused,
    fun _ h ↦ absurd h List.not_mem_nil, fun _ h ↦ absurd h List.not_mem_nil⟩

/-- Where a run leads, the invariant holds. -/
theorem Sound.run {s : State} {es : List Event} (hrun : machine.run init es = some s) :
    Sound s :=
  (machine.always_of_inductive (fun _ _ _ hs h ↦ hs.step h) sound_init es).last machine hrun

/-- **The commands of a client are started in the order in which they were accepted**, each at most
once, however those of other clients and CONNECTs get ahead of them. Where no clean session is asked
for, none is lost: what has not been started is still in the queue. -/
theorem started_in_order {s : State} {es : List Event} (hrun : machine.run init es = some s)
    (h : ℕ) :
    (Paho.ofClient h s.started ++ Paho.ofClient h s.paho.commands).Sublist
        (Paho.ofClient h s.accepted) ∧
      ((∀ e ∈ es, e.Keeps) →
        Paho.ofClient h s.started ++ Paho.ofClient h s.paho.commands =
          Paho.ofClient h s.accepted) := by
  refine ⟨(Sound.run hrun).queue h, fun hkeeps ↦ ?_⟩
  have hwhole : ∀ {t : State} {fs : List Event}, Whole t → Sound t → (∀ e ∈ fs, e.Keeps) →
      machine.run t fs = some s → Whole s := by
    intro t fs ht hsound hfs hrun
    induction fs generalizing t with
    | nil =>
      obtain rfl : t = s := Option.some.inj hrun
      exact ht
    | cons e fs ih =>
      obtain ⟨u, hu, hrest⟩ := machine.run_cons_eq_some_iff.1 hrun
      exact ih (ht.step hsound (hfs e (List.mem_cons_self ..)) hu) (hsound.step hu)
        (fun e he ↦ hfs e (List.mem_cons_of_mem _ he)) hrest
  exact (hwhole ⟨fun _ ↦ rfl, fun _ ↦ rfl⟩ sound_init hkeeps hrun).queue h

/-- A client connects, publishes twice and disconnects; the send thread has come to the first
PUBLISH. -/
def publishRun : List Event :=
  [.create [] [], .connect 0 60 false, .paho (.processCommand (fun _ ↦ true) .sent .complete),
    .paho (.connack 0 0), .call 0 (.publish [97] [98] (some 1) none) true, .store 0,
    .call 0 (.publish [97] [99] none none) true, .queue 0, .store 0, .queue 0,
    .call 0 .disconnect true, .store 0, .queue 0,
    .paho (.processCommand (fun _ ↦ true) .sent .complete)]

theorem started_in_order_publish :
    ∃ s, machine.run init publishRun = some s ∧ (Paho.ofClient 0 s.started).length = 1 ∧
      Paho.ofClient 0 s.started ++ Paho.ofClient 0 s.paho.commands =
        Paho.ofClient 0 s.accepted := by
  have horder : ∀ s, machine.run init publishRun = some s →
      Paho.ofClient 0 s.started ++ Paho.ofClient 0 s.paho.commands =
        Paho.ofClient 0 s.accepted := by
    intro s hrun
    refine (started_in_order hrun 0).2 ?_
    simp [publishRun, Event.Keeps]
  exact ⟨_, rfl, rfl, horder _ rfl⟩

/-- **No message id is in use twice** by a client, in the queue and among the commands that wait for
a response, as long as the calls of the client do not overlap. None is ever out of range. -/
theorem uses_le_one {s : State} {es : List Event} (hrun : machine.run init es = some s)
    (h : ℕ) {msgid : ℕ} (hne : msgid ≠ 0) :
    (machine.EachStep (fun s e _ ↦ Serial s e) init es → s.paho.uses h msgid ≤ 1) ∧
      (s.paho.uses h msgid ≠ 0 → msgid ≤ 65535) := by
  refine ⟨fun hserial ↦ ?_, (Sound.run hrun).inRange h msgid⟩
  have honce : Once s := by
    refine (machine.always_of_guarded (J := fun s ↦ Sound s ∧ Once s) (fun s e s' hs hstep hguard ↦
      ?_) (fun _ hs ↦ hs.2) ⟨sound_init, fun _ _ _ ↦ Nat.zero_le 1⟩ hserial).last machine hrun
    exact ⟨hs.1.step hstep, hs.2.step hs.1 hguard hstep⟩
  exact (Nat.le_add_right ..).trans (honce h msgid hne)

/-- The PUBLISH of QoS 1 waits for its PUBACK under id 1. -/
theorem uses_le_one_publish :
    ∃ s, machine.run init publishRun = some s ∧ s.paho.uses 0 1 = 1 := by
  have honce : ∀ s, machine.run init publishRun = some s → s.paho.uses 0 1 ≤ 1 := fun s hrun ↦
    (uses_le_one hrun 0 (by decide)).1 (by decide)
  refine ⟨_, rfl, Nat.le_antisymm (honce _ rfl) ?_⟩
  decide

/-- Two calls that overlap find the same id. -/
example : (machine.run init [.create [] [], .connect 0 60 false,
    .paho (.processCommand (fun _ ↦ true) .sent .complete), .paho (.connack 0 0),
    .call 0 (.publish [97] [98] (some 1) none) false,
    .call 0 (.publish [97] [99] (some 1) none) true, .store 0, .queue 0, .store 0, .queue 0]).map
      (fun s ↦ s.paho.uses 0 1) = some 2 := by
  decide

end CommandQueue
