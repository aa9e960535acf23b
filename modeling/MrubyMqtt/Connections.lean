import MrubyMqtt.Wrapper

/-!
# What Paho does to connections

The view of the library that the results about connections take: which clients have a CONNECT in
the queue (`Paho.connecting`), which have a socket, and which are `Live`, that is, connecting or
connected. `WellQueued` is the invariant of the queue: a client has at most one CONNECT there, and
none while it has a socket.

`Paho.Moves` says once what a step can do to its client; `step_moves` proves it, together with
`Only`, which says that no other client is affected. In particular a client that is not live never
becomes live again, and **a callback that reports an end leaves its client dead**.
-/

open Bytes

namespace Callback

/-- The callbacks that report a change of a connection. -/
def aboutConnection (cb : Callback) : Bool := cb = .mqttOnConnect || cb.clears

/-- The other callbacks leave the flag alone. -/
theorem flagAfter_of_not_aboutConnection {cb : Callback} (hcb : cb.aboutConnection = false)
    (flag : Bool) : cb.flagAfter flag = flag := by
  cases cb <;> first | rfl | simp [aboutConnection, clears] at hcb

/-- Only a success calls `on_connect_callback`. -/
theorem method_eq_onConnectCallback_iff {cb : Callback} :
    .onConnectCallback = cb.method ↔ cb = .mqttOnConnect := by
  cases cb <;> simp [method]

end Callback

namespace Paho

/-- The clients with a CONNECT in the queue. -/
def connecting (p : Paho) : List ℕ := (p.commands.filter Command.isConnect).map Command.client

/-- The client is connecting or connected. -/
def Live (p : Paho) (h : ℕ) : Prop := h ∈ p.connecting ∨ (p.client h).hasSocket = true

instance (p : Paho) (h : ℕ) : Decidable (p.Live h) := inferInstanceAs (Decidable (_ ∨ _))

/-- The invariant of the command queue. -/
structure WellQueued (p : Paho) : Prop where
  /-- At most one CONNECT for each client. -/
  nodup : p.connecting.Nodup
  /-- None for a client with a socket. -/
  idle : ∀ h ∈ p.connecting, (p.client h).hasSocket = false
  /-- Only handles that exist are live. -/
  known : ∀ h, p.Live h → h < p.count

/-- A handle that nothing has been done with: no socket, and nothing on the way. -/
structure Unused (m : MqttAsyncs) : Prop where
  /-- No socket. -/
  hasSocket : m.c.hasSocket = false
  /-- No partial write. -/
  pendingWrite : m.pendingWrite = false
  /-- No command that waits for a response. -/
  responses : m.responses = []

theorem wellQueued_init : init.WellQueued where
  nodup := List.nodup_nil
  idle := by simp [connecting, init]
  known h hlive := by simp [Live, connecting, init, client, Clients.hasSocket] at hlive

/-! ### The operations, seen from a client -/

theorem handle_setHandle (p : Paho) (h : ℕ) (m : MqttAsyncs) :
    (p.setHandle h m).handle = Function.update p.handle h m := rfl

theorem client_setHandle_self (p : Paho) (h : ℕ) (m : MqttAsyncs) :
    (p.setHandle h m).client h = m.c := by
  rw [client, handle_setHandle, Function.update_self]

theorem client_setHandle_of_ne (p : Paho) {h k : ℕ} (m : MqttAsyncs) (hne : k ≠ h) :
    (p.setHandle h m).client k = p.client k := by
  rw [client, handle_setHandle, Function.update_of_ne hne, client]

theorem client_setClient_self (p : Paho) (h : ℕ) (c : Clients) : (p.setClient h c).client h = c :=
  p.client_setHandle_self h _

theorem client_setClient_of_ne (p : Paho) {h k : ℕ} (c : Clients) (hne : k ≠ h) :
    (p.setClient h c).client k = p.client k :=
  p.client_setHandle_of_ne _ hne

theorem mqttAsyncAddCommand_eq (p : Paho) (command : Command) :
    ∃ commands, p.mqttAsyncAddCommand command = { p with commands := commands } := by
  rw [mqttAsyncAddCommand]
  split_ifs
  · rcases p.commands.head? with - | head
    · exact ⟨_, rfl⟩
    · dsimp only
      split_ifs
      · exact ⟨p.commands, rfl⟩
      · exact ⟨_, rfl⟩
  · exact ⟨_, rfl⟩

@[simp] theorem handle_addCommand (p : Paho) (command : Command) :
    (p.mqttAsyncAddCommand command).handle = p.handle := by
  obtain ⟨commands, heq⟩ := p.mqttAsyncAddCommand_eq command
  rw [heq]

@[simp] theorem client_addCommand (p : Paho) (command : Command) :
    (p.mqttAsyncAddCommand command).client = p.client := by
  funext h
  rw [client, handle_addCommand, client]

@[simp] theorem count_addCommand (p : Paho) (command : Command) :
    (p.mqttAsyncAddCommand command).count = p.count := by
  obtain ⟨commands, heq⟩ := p.mqttAsyncAddCommand_eq command
  rw [heq]

/-- What is in the queue afterwards. -/
theorem mem_addCommand {p : Paho} {command command' : Command}
    (hmem : command' ∈ (p.mqttAsyncAddCommand command).commands) :
    command' ∈ p.commands ∨ command' = command := by
  rw [mqttAsyncAddCommand] at hmem
  split_ifs at hmem
  · rcases hhead : p.commands.head? with - | head <;> simp only [hhead] at hmem
    · exact (List.mem_cons.1 hmem).symm
    · split_ifs at hmem
      · exact .inl hmem
      · exact (List.mem_cons.1 hmem).symm
  · exact (List.mem_append.1 hmem).imp_right List.mem_singleton.1

/-- A command that is no CONNECT does not change who is connecting. -/
theorem connecting_addCommand {p : Paho} {command : Command} (hcmd : command.isConnect = false) :
    (p.mqttAsyncAddCommand command).connecting = p.connecting := by
  rw [mqttAsyncAddCommand]
  split_ifs
  · rcases p.commands.head? with - | head
    · simp [connecting, hcmd]
    · dsimp only
      split_ifs
      · rfl
      · simp [connecting, hcmd]
  · simp [connecting, hcmd]

/-- A CONNECT of a client that has none in the queue goes to the head. -/
theorem addCommand_connect {p : Paho} {h : ℕ} (version : ℕ) (hnew : h ∉ p.connecting) :
    p.mqttAsyncAddCommand ⟨h, 0, .connect version⟩ =
      { p with commands := ⟨h, 0, .connect version⟩ :: p.commands } := by
  have hfirst : (⟨h, 0, .connect version⟩ : Command).goesFirst = true := rfl
  rw [mqttAsyncAddCommand, if_pos hfirst]
  rcases hhead : p.commands.head? with - | head
  · rfl
  · -- The command at the head is no CONNECT of this client, so the new one is not dropped.
    have hother : ¬ (head.client = h && head.sameType ⟨h, 0, .connect version⟩) = true := by
      rw [Bool.and_eq_true, decide_eq_true_eq]
      rintro ⟨rfl, htype⟩
      have hconnect : head.isConnect = true := by
        simpa [Command.sameType, Command.isConnect, Command.isDisconnect] using htype
      refine hnew (List.mem_map.2 ⟨head, List.mem_filter.2 ⟨?_, hconnect⟩, rfl⟩)
      exact List.mem_of_mem_head? hhead
    dsimp only
    rw [if_neg hother]

theorem connecting_addCommand_connect {p : Paho} {h : ℕ} (version : ℕ) (hnew : h ∉ p.connecting) :
    (p.mqttAsyncAddCommand ⟨h, 0, .connect version⟩).connecting = h :: p.connecting := by
  rw [addCommand_connect version hnew]
  rfl

/-- Taking a command off the queue, where no client has two CONNECTs. -/
theorem connecting_erase {p : Paho} {command : Command} (hnodup : p.connecting.Nodup)
    (hmem : command ∈ p.commands) :
    ({ p with commands := p.commands.erase command }.connecting.Nodup) ∧
    ∀ k, k ∈ { p with commands := p.commands.erase command }.connecting ↔
      k ∈ p.connecting ∧ ¬ (command.isConnect = true ∧ k = command.client) := by
  obtain ⟨before, after, -, hsplit, herase⟩ := List.exists_erase_eq hmem
  have hconn : p.connecting =
      ((before ++ command :: after).filter Command.isConnect).map Command.client := by
    rw [connecting, hsplit]
  have hconn' : { p with commands := p.commands.erase command }.connecting =
      ((before ++ after).filter Command.isConnect).map Command.client := by
    rw [connecting, herase]
  rw [hconn] at hnodup ⊢
  rw [hconn']
  by_cases hconnect : command.isConnect = true
  · simp only [List.filter_append, List.filter_cons_of_pos hconnect, List.map_append, List.map_cons]
      at hnodup ⊢
    obtain ⟨hnot, hrest⟩ := List.nodup_cons.1 (List.perm_middle.nodup_iff.1 hnodup)
    refine ⟨hrest, fun k ↦ ?_⟩
    rw [List.mem_append] at hnot
    simp only [List.mem_append, List.mem_cons, hconnect, true_and]
    constructor
    · intro hk
      refine ⟨hk.imp_right .inr, ?_⟩
      rintro rfl
      exact hnot hk
    · rintro ⟨hk, hne⟩
      exact hk.imp_right fun h ↦ h.resolve_left hne
  · simp only [List.filter_append, List.filter_cons_of_neg hconnect] at hnodup ⊢
    exact ⟨hnodup, fun k ↦ by simp [hconnect]⟩

/-! ### No other client is affected -/

/-- Only this client may differ. -/
structure Only (p : Paho) (h : ℕ) (p' : Paho) : Prop where
  /-- No handle is created. -/
  count : p'.count = p.count
  /-- The other clients are the same. -/
  client : ∀ k, k ≠ h → p'.client k = p.client k
  /-- The others' CONNECTs stay in the queue. -/
  connecting : ∀ k, k ≠ h → (k ∈ p'.connecting ↔ k ∈ p.connecting)

namespace Only

variable {p p' p'' : Paho} {h : ℕ}

theorem refl (p : Paho) (h : ℕ) : p.Only h p := ⟨rfl, fun _ _ ↦ rfl, fun _ _ ↦ Iff.rfl⟩

theorem trans (h₁ : p.Only h p') (h₂ : p'.Only h p'') : p.Only h p'' where
  count := h₂.count.trans h₁.count
  client k hne := (h₂.client k hne).trans (h₁.client k hne)
  connecting k hne := (h₂.connecting k hne).trans (h₁.connecting k hne)

/-- The other clients are as live as before. -/
theorem live_iff (honly : p.Only h p') {k : ℕ} (hne : k ≠ h) : p'.Live k ↔ p.Live k := by
  rw [Live, Live, honly.connecting k hne, honly.client k hne]

end Only

theorem only_setHandle (p : Paho) (h : ℕ) (m : MqttAsyncs) : p.Only h (p.setHandle h m) :=
  ⟨rfl, fun _ hne ↦ p.client_setHandle_of_ne m hne, fun _ _ ↦ Iff.rfl⟩

theorem only_setClient (p : Paho) (h : ℕ) (c : Clients) : p.Only h (p.setClient h c) :=
  p.only_setHandle h _

theorem only_addCommand (p : Paho) (command : Command) :
    p.Only command.client (p.mqttAsyncAddCommand command) := by
  refine ⟨count_addCommand .., fun k _ ↦ by rw [client_addCommand], fun k hne ↦ ?_⟩
  rw [mqttAsyncAddCommand]
  by_cases hconnect : command.isConnect = true
  · split_ifs
    · rcases p.commands.head? with - | head
      · simp [connecting, hconnect, hne]
      · dsimp only
        split_ifs
        · rfl
        · simp [connecting, hconnect, hne]
    · simp [connecting, hconnect, hne]
  · have hsame := connecting_addCommand (p := p) (by simpa using hconnect)
    rw [mqttAsyncAddCommand] at hsame
    rw [hsame]

theorem only_closeOnly (p : Paho) (h : ℕ) : p.Only h (p.mqttAsyncCloseOnly h) :=
  p.only_setClient h _

theorem only_cleanSession (p : Paho) (h : ℕ) : p.Only h (p.mqttAsyncCleanSession h) := by
  refine ⟨rfl, fun k hne ↦ ?_, fun k hne ↦ ?_⟩
  · refine Eq.trans ?_ (p.client_setClient_of_ne { p.client h with msgID := 0 } hne)
    exact client_setHandle_of_ne _ _ hne
  · simp only [connecting, mqttAsyncCleanSession, mqttAsyncRemoveResponsesAndCommands,
      List.mem_map, List.mem_filter, setClient, setHandle]
    constructor
    · rintro ⟨command, ⟨⟨hmem, -⟩, hconnect⟩, rfl⟩
      exact ⟨command, ⟨hmem, hconnect⟩, rfl⟩
    · rintro ⟨command, ⟨hmem, hconnect⟩, rfl⟩
      exact ⟨command, ⟨⟨hmem, by simpa using hne⟩, hconnect⟩, rfl⟩

theorem only_closeSession (p : Paho) (h : ℕ) : p.Only h (p.mqttAsyncCloseSession h) := by
  rw [mqttAsyncCloseSession]
  split_ifs
  · exact (p.only_closeOnly h).trans (only_cleanSession _ h)
  · exact p.only_closeOnly h

theorem only_disconnectInternal (p : Paho) (h : ℕ) :
    p.Only h (p.mqttAsyncDisconnectInternal h) := by
  rw [mqttAsyncDisconnectInternal, mqttAsyncDisconnect1]
  split_ifs
  · exact only_addCommand p ⟨h, 0, .disconnect true⟩
  · exact .refl p h

theorem only_connectFailed (p : Paho) (h : ℕ) : p.Only h (p.connectFailed h).1 := by
  rw [connectFailed]
  split_ifs
  · exact (p.only_closeOnly h).trans (only_addCommand _ ⟨h, 0, .connect _⟩)
  · exact p.only_closeSession h

/-! ### What happens to the client itself -/

/-- What a step can do to its client, and the callback it ends with. -/
inductive Moves (p : Paho) (h : ℕ) (p' : Paho) : Option Callback → Prop
  /-- The connection stays as it is. -/
  | kept {cb} (hconnected : (p'.client h).connected = (p.client h).connected)
      (hsocket : (p'.client h).hasSocket = (p.client h).hasSocket)
      (hqueued : h ∈ p'.connecting ↔ h ∈ p.connecting)
      (hcb : ∀ c, cb = some c → c.aboutConnection = false) : Moves p h p' cb
  /-- The CONNECT is taken from the queue and a socket is opened. -/
  | began (hqueued : h ∈ p.connecting) (hdetached : h ∉ p'.connecting)
      (hsocket : (p'.client h).hasSocket = true) (hconnected : (p'.client h).connected = false) :
      Moves p h p' none
  /-- The attempt has failed, and a CONNECT is in the queue again. -/
  | retried (hlive : p.Live h) (hqueued : h ∈ p'.connecting)
      (hsocket : (p'.client h).hasSocket = false) : Moves p h p' none
  /-- The attempt has succeeded. -/
  | completed (hsocket : (p.client h).hasSocket = true)
      (hconnected : (p'.client h).connected = true)
      (hdetached : h ∉ p'.connecting) : Moves p h p' (some .mqttOnConnect)
  /-- The connection or the attempt has come to an end. -/
  | ended {cb} (hlive : p.Live h) (hdead : ¬ p'.Live h)
      (hcb : ∀ c, cb = some c → c.clears = true) : Moves p h p' cb

namespace Moves

variable {p p' : Paho} {h : ℕ} {cb : Option Callback}

/-- **No client comes back to life.** -/
theorem live_of_live (hmoves : p.Moves h p' cb) (hlive : p'.Live h) : p.Live h := by
  cases hmoves with
  | kept _ hsocket hqueued _ => exact hlive.imp hqueued.1 fun hs ↦ hsocket ▸ hs
  | began hqueued _ _ _ => exact .inl hqueued
  | retried hlive' _ _ => exact hlive'
  | completed hsocket _ _ => exact .inr hsocket
  | ended hlive' _ _ => exact hlive'

/-- A callback about a connection comes from a live client. -/
theorem live_of_aboutConnection {c : Callback} (hmoves : p.Moves h p' (some c))
    (hc : c.aboutConnection = true) : p.Live h := by
  cases hmoves with
  | kept _ _ _ hcb => exact absurd hc (by simp [hcb c rfl])
  | completed hsocket _ _ => exact .inr hsocket
  | ended hlive _ _ => exact hlive

/-- **A callback that reports an end leaves its client dead.** -/
theorem dead_of_clears {c : Callback} (hmoves : p.Moves h p' (some c)) (hc : c.clears = true) :
    ¬ p'.Live h := by
  cases hmoves with
  | kept _ _ _ hcb =>
    have habout := hcb c rfl
    simp [Callback.aboutConnection, hc] at habout
  | completed _ _ _ => cases hc
  | ended _ hdead _ => exact hdead

/-- **A reported success leaves its client connected.** -/
theorem connected_of_onConnect (hmoves : p.Moves h p' (some .mqttOnConnect)) :
    (p'.client h).connected = true := by
  cases hmoves with
  | kept _ _ _ hcb => cases hcb _ rfl
  | completed _ hconnected _ => exact hconnected
  | ended _ _ hcb => cases hcb _ rfl

/-- The queue stays in order, if it still holds one CONNECT at most for each client. -/
theorem wellQueued (hmoves : p.Moves h p' cb) (hwf : p.WellQueued) (honly : p.Only h p')
    (hnodup : p'.connecting.Nodup) : p'.WellQueued where
  nodup := hnodup
  idle k hk := by
    rcases eq_or_ne k h with rfl | hne
    · cases hmoves with
      | kept _ hsocket hqueued _ => exact hsocket.trans (hwf.idle k (hqueued.1 hk))
      | began _ hdetached _ _ => exact absurd hk hdetached
      | retried _ _ hsocket => exact hsocket
      | completed _ _ hdetached => exact absurd hk hdetached
      | ended _ hdead _ => exact absurd (.inl hk) hdead
    · rw [honly.client k hne]
      exact hwf.idle k ((honly.connecting k hne).1 hk)
  known k hlive := by
    rw [honly.count]
    rcases eq_or_ne k h with rfl | hne
    · exact hwf.known k (hmoves.live_of_live hlive)
    · exact hwf.known k ((honly.live_iff hne).1 hlive)

end Moves

/-- A client with a socket has no CONNECT in the queue. -/
theorem WellQueued.not_mem_of_hasSocket {p : Paho} (hwf : p.WellQueued) {h : ℕ}
    (hsocket : (p.client h).hasSocket = true) : h ∉ p.connecting := fun hmem ↦ by
  rw [hwf.idle h hmem] at hsocket
  cases hsocket

theorem hasSocket_closeOnly (p : Paho) (h : ℕ) :
    ((p.mqttAsyncCloseOnly h).client h).hasSocket = false := by
  rw [mqttAsyncCloseOnly, client_setClient_self]
  rfl

theorem client_cleanSession_self (p : Paho) (h : ℕ) :
    (p.mqttAsyncCleanSession h).client h = { p.client h with msgID := 0 } := by
  refine Eq.trans ?_ (p.client_setClient_self h { p.client h with msgID := 0 })
  exact client_setHandle_self _ _ _

theorem connecting_cleanSession_sublist (p : Paho) (h : ℕ) :
    (p.mqttAsyncCleanSession h).connecting.Sublist p.connecting :=
  (List.filter_sublist.filter _).map _

theorem connecting_closeSession_sublist (p : Paho) (h : ℕ) :
    (p.mqttAsyncCloseSession h).connecting.Sublist p.connecting := by
  rw [mqttAsyncCloseSession]
  split_ifs
  · exact connecting_cleanSession_sublist _ h
  · exact List.Sublist.refl _

theorem hasSocket_closeSession (p : Paho) (h : ℕ) :
    ((p.mqttAsyncCloseSession h).client h).hasSocket = false := by
  rw [mqttAsyncCloseSession]
  split_ifs
  · rw [client_cleanSession_self]
    exact p.hasSocket_closeOnly h
  · exact p.hasSocket_closeOnly h

/-- Closing the session of a client without a CONNECT in the queue leaves it dead. -/
theorem not_live_closeSession {p : Paho} {h : ℕ} (hqueue : h ∉ p.connecting) :
    ¬ (p.mqttAsyncCloseSession h).Live h := by
  rintro (hmem | hsocket)
  · exact hqueue ((p.connecting_closeSession_sublist h).subset hmem)
  · rw [hasSocket_closeSession] at hsocket
    cases hsocket

/-- A failed attempt is repeated, or it is over and reported. -/
theorem moves_connectFailed {p : Paho} (hwf : p.WellQueued) {h : ℕ}
    (hsocket : (p.client h).hasSocket = true) :
    p.Moves h (p.connectFailed h).1 (p.connectFailed h).2 ∧
      (p.connectFailed h).1.connecting.Nodup := by
  have hqueue : h ∉ p.connecting := hwf.not_mem_of_hasSocket hsocket
  rw [connectFailed]
  split_ifs
  · -- Version 3.1 is left to try: the CONNECT goes back to the head of the queue.
    have hqueued : ((p.mqttAsyncCloseOnly h).mqttAsyncAddCommand
        ⟨h, 0, .connect (p.handle h).connectVersion⟩).connecting = h :: p.connecting :=
      connecting_addCommand_connect _ hqueue
    refine ⟨.retried (.inr hsocket) ?_ ?_, ?_⟩
    · rw [hqueued]
      exact List.mem_cons_self
    · rw [client_addCommand]
      exact p.hasSocket_closeOnly h
    · rw [hqueued]
      exact List.nodup_cons.2 ⟨hqueue, hwf.nodup⟩
  · -- There is nothing left to try: the session is closed.
    refine ⟨.ended (.inr hsocket) (not_live_closeSession hqueue) ?_, ?_⟩
    · rintro c ⟨⟩
      rfl
    · exact (p.connecting_closeSession_sublist h).nodup hwf.nodup

/-! ### Every step -/

/-- Where nothing about the connection changes. -/
theorem moves_kept {p p' : Paho} (hwf : p.WellQueued) {h : ℕ} {cb : Option Callback}
    (hclient : p'.client h = p.client h) (hconnecting : p'.connecting = p.connecting)
    (hcb : ∀ c, cb = some c → c.aboutConnection = false) :
    p.Moves h p' cb ∧ p'.connecting.Nodup := by
  refine ⟨.kept ?_ ?_ ?_ hcb, hconnecting ▸ hwf.nodup⟩
  · rw [hclient]
  · rw [hclient]
  · rw [hconnecting]

theorem moves_disconnectInternal {p : Paho} (hwf : p.WellQueued) (h : ℕ) {cb : Option Callback}
    (hcb : ∀ c, cb = some c → c.aboutConnection = false) :
    p.Moves h (p.mqttAsyncDisconnectInternal h) cb ∧
      (p.mqttAsyncDisconnectInternal h).connecting.Nodup := by
  rw [mqttAsyncDisconnectInternal, mqttAsyncDisconnect1]
  split_ifs
  · exact moves_kept hwf (by rw [client_addCommand]) (connecting_addCommand rfl) hcb
  · exact moves_kept hwf rfl rfl hcb

/-- A command that is found in the queue is one of its commands. -/
theorem mem_of_nextCommand {p : Paho} {canSend : ℕ → Bool} {ignoredClients : List ℕ}
    {commands : List Command} {command : Command}
    (h : p.nextCommand canSend ignoredClients commands = some command) : command ∈ commands := by
  induction commands generalizing ignoredClients with
  | nil => cases h
  | cons cmd rest ih =>
    rw [nextCommand] at h
    split_ifs at h
    · exact List.mem_cons_of_mem _ (ih h)
    · obtain rfl := Option.some.inj h
      exact List.mem_cons_self
    · exact List.mem_cons_of_mem _ (ih h)

/-- A command is taken off the queue. -/
theorem only_erase {p : Paho} (hwf : p.WellQueued) {command : Command}
    (hmem : command ∈ p.commands) :
    p.Only command.client { p with commands := p.commands.erase command } := by
  refine ⟨rfl, fun _ _ ↦ rfl, fun k hne ↦ ?_⟩
  rw [(connecting_erase hwf.nodup hmem).2 k]
  exact and_iff_left fun h ↦ hne h.2

/-- A command that is no CONNECT is taken off the queue. -/
theorem wellQueued_erase {p : Paho} (hwf : p.WellQueued) {command : Command}
    (hmem : command ∈ p.commands) (hcmd : command.isConnect = false) :
    { p with commands := p.commands.erase command }.WellQueued := by
  have hsame : ∀ k, k ∈ { p with commands := p.commands.erase command }.connecting ↔
      k ∈ p.connecting := fun k ↦ by
    rw [(connecting_erase hwf.nodup hmem).2 k, hcmd]
    simp
  exact ⟨(connecting_erase hwf.nodup hmem).1, fun k hk ↦ hwf.idle k ((hsame k).1 hk),
    fun k hlive ↦ hwf.known k (hlive.imp_left (hsame k).1)⟩

theorem moves_of_erase {p : Paho} (hwf : p.WellQueued) {command : Command}
    (hmem : command ∈ p.commands) (hcmd : command.isConnect = false) {p' : Paho}
    {cb : Option Callback}
    (hmoves : { p with commands := p.commands.erase command }.Moves command.client p' cb) :
    p.Moves command.client p' cb := by
  have hsame : command.client ∈ { p with commands := p.commands.erase command }.connecting ↔
      command.client ∈ p.connecting := by
    rw [(connecting_erase hwf.nodup hmem).2, hcmd]
    simp
  have hlive : { p with commands := p.commands.erase command }.Live command.client ↔
      p.Live command.client := or_congr_left hsame
  cases hmoves with
  | kept hconnected hsocket hqueued hcb => exact .kept hconnected hsocket (hqueued.trans hsame) hcb
  | began hqueued hdetached hsocket hconnected =>
    exact .began (hsame.1 hqueued) hdetached hsocket hconnected
  | retried hbefore hqueued hsocket => exact .retried (hlive.1 hbefore) hqueued hsocket
  | completed hsocket hconnected hdetached => exact .completed hsocket hconnected hdetached
  | ended hbefore hdead hcb => exact .ended (hlive.1 hbefore) hdead hcb

/-- A CONNECT is processed. -/
theorem moves_processConnect {p : Paho} (hwf : p.WellQueued) {command : Command} {version : ℕ}
    (hmem : command ∈ p.commands) (hdetails : command.details = .connect version) (tcp : Tcp) :
    let done :=
      { p with commands := p.commands.erase command }.processConnect command.client version
      tcp
    p.Only command.client done.1 ∧ p.Moves command.client done.1 done.2 ∧
      done.1.connecting.Nodup := by
  set q : Paho := { p with commands := p.commands.erase command } with hq
  have hcmd : command.isConnect = true := by rw [Command.isConnect, hdetails]
  have honly : p.Only command.client q := only_erase hwf hmem
  obtain ⟨hnodup, hiff⟩ := connecting_erase hwf.nodup hmem
  have hqueued : command.client ∈ p.connecting :=
    List.mem_map_of_mem (List.mem_filter.2 ⟨hmem, hcmd⟩)
  have hdetached : command.client ∉ q.connecting := fun hk ↦ ((hiff _).1 hk).2 ⟨hcmd, rfl⟩
  have hidle : (q.client command.client).hasSocket = false := hwf.idle _ hqueued
  have hstate : (q.client command.client).connected = false ∧
      (q.client command.client).connectState = 0 := by
    simpa [Clients.hasSocket] using hidle
  -- The two outcomes of the TCP connect that leave a socket behind.
  have hopen : ∀ m : MqttAsyncs, m.c.hasSocket = true → m.c.connected = false →
      p.Only command.client (q.setHandle command.client m) ∧
      p.Moves command.client (q.setHandle command.client m) none ∧
      (q.setHandle command.client m).connecting.Nodup := by
    intro m hsocket hconnected
    refine ⟨honly.trans (q.only_setHandle _ m), .began hqueued hdetached ?_ ?_, hnodup⟩
    · rw [client_setHandle_self]
      exact hsocket
    · rw [client_setHandle_self]
      exact hconnected
  -- A client that has a CONNECT in the queue is idle, so the CONNECT is not passed over.
  have hbusy : ¬ ((q.handle command.client).c.connectState ≠ 0 ||
      (q.handle command.client).c.connected) = true := by
    have hc : (q.handle command.client).c = q.client command.client := rfl
    rw [hc, hstate.1, hstate.2]
    decide
  rw [processConnect]
  simp only [if_neg hbusy]
  generalize (if version = 0 then 4 else if version = 4 then 3 else version) = version'
  cases tcp with
  | inProgress => exact hopen _ (by simp [Clients.hasSocket]) hstate.1
  | sent => exact hopen _ (by simp [Clients.hasSocket]) hstate.1
  | failed =>
    by_cases hmore : mqttAsyncCheckConn version' = true
    · have hhead := connecting_addCommand_connect version' hdetached
      simp only [if_pos hmore]
      refine ⟨honly.trans (only_addCommand q ⟨command.client, 0, .connect version'⟩),
        .retried (.inl hqueued) ?_ ?_, ?_⟩
      · rw [hhead]
        exact List.mem_cons_self
      · rw [client_addCommand]
        exact hidle
      · rw [hhead]
        exact List.nodup_cons.2 ⟨hdetached, hnodup⟩
    · simp only [if_neg hmore]
      refine ⟨honly, .ended (.inl hqueued) ?_ ?_, hnodup⟩
      · rintro (hk | hsocket)
        · exact hdetached hk
        · rw [hidle] at hsocket
          cases hsocket
      · rintro c ⟨⟩
        rfl

/-- A DISCONNECT is processed. -/
theorem moves_processDisconnect {p : Paho} (hwf : p.WellQueued) (h : ℕ) (internal : Bool) :
    let done := p.processDisconnect h internal
    p.Only h done.1 ∧ p.Moves h done.1 done.2 ∧ done.1.connecting.Nodup := by
  rw [processDisconnect]
  by_cases hopen : ((p.client h).connectState ≠ 0 || (p.client h).connected) = true
  · have hsocket : (p.client h).hasSocket = true := by
      rw [Clients.hasSocket, Bool.or_comm]
      exact hopen
    simp only [if_pos hopen]
    refine ⟨p.only_closeSession h,
      .ended (.inr hsocket) (not_live_closeSession (hwf.not_mem_of_hasSocket hsocket)) ?_,
      (p.connecting_closeSession_sublist h).nodup hwf.nodup⟩
    intro c hc
    split_ifs at hc <;>
    · obtain rfl := Option.some.inj hc
      rfl
  · simp only [if_neg hopen]
    exact ⟨.refl p h, moves_kept hwf rfl rfl nofun⟩

/-- A PUBLISH or SUBSCRIBE is written. -/
theorem moves_processPacket {p : Paho} (hwf : p.WellQueued) (command : Command) (write : Write) :
    let done := p.processPacket command write
    p.Only command.client done.1 ∧ p.Moves command.client done.1 done.2 ∧
      done.1.connecting.Nodup := by
  -- Only the responses and the pending write change, not the client.
  have hset : ∀ (m : MqttAsyncs) (cb : Option Callback),
      m.c = p.client command.client → (∀ c, cb = some c → c.aboutConnection = false) →
      p.Only command.client (p.setHandle command.client m) ∧
      p.Moves command.client (p.setHandle command.client m) cb ∧
      (p.setHandle command.client m).connecting.Nodup := by
    intro m cb hm hcb
    refine ⟨p.only_setHandle _ m, moves_kept hwf ?_ rfl hcb⟩
    rw [client_setHandle_self, hm]
  have hwait := hset { p.handle command.client with
    responses := (p.handle command.client).responses ++ [command] } none rfl nofun
  have hdown : ∀ cb : Option Callback, (∀ c, cb = some c → c.aboutConnection = false) →
      p.Only command.client (p.mqttAsyncDisconnectInternal command.client) ∧
      p.Moves command.client (p.mqttAsyncDisconnectInternal command.client) cb ∧
      (p.mqttAsyncDisconnectInternal command.client).connecting.Nodup := fun cb hcb ↦
    ⟨p.only_disconnectInternal _, moves_disconnectInternal hwf _ hcb⟩
  unfold processPacket
  dsimp only
  rcases command.details with version | internal | ⟨name, payload, qos, retained⟩ | ⟨topic, qos⟩
  · exact hwait
  · exact hwait
  · rcases qos with - | qos <;> cases write
    · exact ⟨.refl p _, moves_kept hwf rfl rfl (by rintro c ⟨⟩; rfl)⟩
    · exact hset _ none rfl nofun
    · exact hset _ none rfl nofun
    · exact hwait
    · exact hwait
    · exact hdown none nofun
  · cases write
    · exact hwait
    · exact hwait
    · exact hdown _ (by rintro c ⟨⟩; rfl)

/-- One command is taken from the queue and processed. -/
theorem moves_processCommand {p p' : Paho} (hwf : p.WellQueued) {canSend : ℕ → Bool} {tcp : Tcp}
    {write : Write} {h : ℕ} {cb : Option Callback}
    (hstep : p.mqttAsyncProcessCommand canSend tcp write = some (p', h, cb)) :
    p.Only h p' ∧ p.Moves h p' cb ∧ p'.connecting.Nodup := by
  rw [mqttAsyncProcessCommand, Option.map_eq_some_iff] at hstep
  obtain ⟨command, hnext, hdone⟩ := hstep
  have hmem : command ∈ p.commands := mem_of_nextCommand hnext
  rcases hdetails : command.details with version | internal | ⟨name, payload, qos, retained⟩ |
    ⟨topic, qos⟩
  · simp only [hdetails, Prod.mk.injEq] at hdone
    obtain ⟨rfl, rfl, rfl⟩ := hdone
    exact moves_processConnect hwf hmem hdetails tcp
  -- The other commands leave the CONNECTs in the queue alone.
  all_goals
    have hcmd : command.isConnect = false := by rw [Command.isConnect, hdetails]
    simp only [hdetails, Prod.mk.injEq] at hdone
    obtain ⟨rfl, rfl, rfl⟩ := hdone
    have hwf' := wellQueued_erase hwf hmem hcmd
  · obtain ⟨honly, hmoves, hnodup⟩ := moves_processDisconnect hwf' command.client internal
    exact ⟨(only_erase hwf hmem).trans honly, moves_of_erase hwf hmem hcmd hmoves, hnodup⟩
  all_goals
    obtain ⟨honly, hmoves, hnodup⟩ := moves_processPacket hwf' command write
    exact ⟨(only_erase hwf hmem).trans honly, moves_of_erase hwf hmem hcmd hmoves, hnodup⟩

/-- A CONNACK is read. -/
theorem moves_receiveConnack {p : Paho} (hwf : p.WellQueued) {h : ℕ} (rc : ℕ)
    (hsocket : (p.client h).hasSocket = true) :
    let done := p.receiveConnack h rc
    p.Only h done.1 ∧ p.Moves h done.1 done.2 ∧ done.1.connecting.Nodup := by
  have hqueue : h ∉ p.connecting := hwf.not_mem_of_hasSocket hsocket
  rw [receiveConnack]
  by_cases hcomplete : ((p.client h).connectState = 3 && rc = 0) = true
  · simp only [if_pos hcomplete]
    set q := p.setClient h { p.client h with connected := true, connectState := 0 } with hq
    have honly : p.Only h q := p.only_setClient h _
    have hconnected : (q.client h).connected = true := by
      rw [hq, client_setClient_self]
    split_ifs
    · refine ⟨honly.trans (q.only_cleanSession h), .completed hsocket ?_ fun hmem ↦ hqueue ?_,
        (q.connecting_cleanSession_sublist h).nodup hwf.nodup⟩
      · rw [client_cleanSession_self]
        exact hconnected
      · exact (q.connecting_cleanSession_sublist h).subset hmem
    · exact ⟨honly, .completed hsocket hconnected hqueue, hwf.nodup⟩
  · simp only [if_neg hcomplete]
    exact ⟨p.only_connectFailed h, moves_connectFailed hwf hsocket⟩

/-- A response is taken off its list. -/
theorem moves_takeResponse {p : Paho} (hwf : p.WellQueued) (h msgId : ℕ)
    {callback : Command → Option Callback}
    (hcb : ∀ command c, callback command = some c → c.aboutConnection = false) :
    let done := p.takeResponse h msgId callback
    p.Only h done.1 ∧ p.Moves h done.1 done.2 ∧ done.1.connecting.Nodup := by
  rw [takeResponse]
  rcases hfind : (p.handle h).responses.find? fun cmd ↦ cmd.token == msgId with - | command <;>
    simp only [hfind]
  · exact ⟨.refl p h, moves_kept hwf rfl rfl nofun⟩
  · exact ⟨p.only_setHandle h _, moves_kept hwf (client_setHandle_self ..) rfl (hcb command)⟩

theorem onSuccess_not_aboutConnection (command : Command) (c : Callback)
    (hc : onSuccess command = some c) : c.aboutConnection = false := by
  rw [onSuccess] at hc
  split at hc <;> cases hc <;> rfl

theorem onFailure_not_aboutConnection (command : Command) (c : Callback)
    (hc : onFailure command = some c) : c.aboutConnection = false := by
  rw [onFailure] at hc
  split at hc <;> cases hc
  rfl

/-- The connection is given up without a callback. -/
theorem moves_closeOnly {p : Paho} (hwf : p.WellQueued) {h : ℕ}
    (hsocket : (p.client h).hasSocket = true) :
    p.Only h (p.mqttAsyncCloseOnly h) ∧ p.Moves h (p.mqttAsyncCloseOnly h) none ∧
      (p.mqttAsyncCloseOnly h).connecting.Nodup := by
  refine ⟨p.only_closeOnly h, .ended (.inr hsocket) ?_ nofun, hwf.nodup⟩
  rintro (hmem | hopen)
  · exact hwf.not_mem_of_hasSocket hsocket hmem
  · rw [hasSocket_closeOnly] at hopen
    cases hopen

/-- What a step can be, with the function of Paho's that it runs. -/
inductive Steps (p : Paho) : PahoEvent → Paho → ℕ → Option Callback → Prop
  /-- A turn of `MQTTAsync_processCommand`. -/
  | processCommand {canSend tcp write p' h cb}
      (hturn : p.mqttAsyncProcessCommand canSend tcp write = some (p', h, cb)) :
      Steps p (.processCommand canSend tcp write) p' h cb
  /-- An attempt to connect fails. -/
  | connectFailed {e} (h : ℕ) (hstate : (p.client h).connectState ≠ 0) :
      Steps p e (p.connectFailed h).1 h (p.connectFailed h).2
  /-- The TCP connect completes, and CONNECT is written. -/
  | connecting (h : ℕ) (hstate : (p.client h).connectState = 1) :
      Steps p (.connecting h true) (p.setClient h { p.client h with connectState := 3 }) h none
  /-- A disconnect is queued. -/
  | disconnectInternal {e} (h : ℕ) (hconnected : (p.client h).connected = true) :
      Steps p e (p.mqttAsyncDisconnectInternal h) h none
  /-- A socket that is not connected is closed. -/
  | closeOnly (h : ℕ) (hsocket : (p.client h).hasSocket = true)
      (hconnected : ¬ (p.client h).connected = true) :
      Steps p (.receiveError h) (p.mqttAsyncCloseOnly h) h none
  /-- A CONNACK is read. -/
  | connack (h rc : ℕ) (hsocket : (p.client h).hasSocket = true) :
      Steps p (.connack h rc) (p.receiveConnack h rc).1 h (p.receiveConnack h rc).2
  /-- An answer to another command is read. -/
  | takeResponse {e} (h msgId : ℕ) (callback : Command → Option Callback)
      (hcallback : ∀ command c, callback command = some c → c.aboutConnection = false) :
      Steps p e (p.takeResponse h msgId callback).1 h (p.takeResponse h msgId callback).2
  /-- A message is passed on. -/
  | messageArrived (h : ℕ) (hsocket : (p.client h).hasSocket = true) :
      Steps p (.messageArrived h) p h (some .mqttMsgarrvd)
  /-- A partial write has been completed. -/
  | writeComplete (h : ℕ) (command : Command) (rest : List Command)
      (hresponses : (p.handle h).responses = command :: rest) :
      Steps p (.writeComplete h)
        (p.setHandle h { p.handle h with pendingWrite := false, responses := rest }) h
        (some .mqttOnPublish)

/-- **Every step of Paho** is one of these. -/
theorem step_cases {p p' : Paho} {e : PahoEvent} {h : ℕ} {cb : Option Callback}
    (hstep : p.step e = some (p', h, cb)) : p.Steps e p' h cb := by
  cases e with
  | processCommand canSend tcp write => exact .processCommand hstep
  | connectTimeout k =>
    simp only [step] at hstep
    split_ifs at hstep with hstate
    obtain ⟨rfl, rfl, rfl⟩ := hstep
    exact .connectFailed _ hstate
  | connecting k ok =>
    simp only [step] at hstep
    split_ifs at hstep with hstate hok
    · obtain ⟨rfl, rfl, rfl⟩ := hstep
      rw [hok]
      exact .connecting _ hstate
    · obtain ⟨rfl, rfl, rfl⟩ := hstep
      exact .connectFailed _ (by omega)
  | cycleError k =>
    simp only [step] at hstep
    split_ifs at hstep with hstate
    obtain ⟨rfl, rfl, rfl⟩ := hstep
    exact .connectFailed _ (by omega)
  | receiveError k =>
    simp only [step] at hstep
    split_ifs at hstep with hsocket hconnected
    · obtain ⟨rfl, rfl, rfl⟩ := hstep
      exact .disconnectInternal _ hconnected
    · obtain ⟨rfl, rfl, rfl⟩ := hstep
      exact .closeOnly _ hsocket hconnected
  | connack k rc =>
    simp only [step] at hstep
    split_ifs at hstep with hready
    obtain ⟨rfl, rfl, rfl⟩ := hstep
    exact .connack _ _ (Bool.and_eq_true_iff.1 hready).1
  | suback k msgId granted =>
    simp only [step] at hstep
    split_ifs at hstep with hsocket hgranted
    · obtain ⟨rfl, rfl, rfl⟩ := hstep
      exact .takeResponse _ msgId _ onSuccess_not_aboutConnection
    · obtain ⟨rfl, rfl, rfl⟩ := hstep
      exact .takeResponse _ msgId _ onFailure_not_aboutConnection
  | puback k msgId =>
    simp only [step] at hstep
    split_ifs at hstep with hsocket
    obtain ⟨rfl, rfl, rfl⟩ := hstep
    exact .takeResponse _ msgId _ onSuccess_not_aboutConnection
  | messageArrived k =>
    simp only [step] at hstep
    split_ifs at hstep with hready
    obtain ⟨rfl, rfl, rfl⟩ := hstep
    exact .messageArrived _ (Bool.and_eq_true_iff.1 hready).1
  | writeComplete k =>
    simp only [step] at hstep
    split_ifs at hstep with hready
    rcases hresponses : (p.handle k).responses with - | ⟨command, rest⟩
    · simp [hresponses] at hstep
    · simp only [hresponses, Option.some.injEq, Prod.mk.injEq] at hstep
      obtain ⟨rfl, rfl, rfl⟩ := hstep
      exact .writeComplete _ command rest hresponses
  | closeSession k =>
    simp only [step] at hstep
    split_ifs at hstep with hconnected
    obtain ⟨rfl, rfl, rfl⟩ := hstep
    exact .disconnectInternal _ hconnected

/-- **Every step of Paho** concerns one client, makes one of the moves with it, and keeps the queue
in order. -/
theorem step_moves {p p' : Paho} (hwf : p.WellQueued) {e : PahoEvent} {h : ℕ}
    {cb : Option Callback} (hstep : p.step e = some (p', h, cb)) :
    p.Only h p' ∧ p.Moves h p' cb ∧ p'.WellQueued := by
  -- The queue is in order again once it has no second CONNECT for a client.
  suffices hspec : p.Only h p' ∧ p.Moves h p' cb ∧ p'.connecting.Nodup from
    ⟨hspec.1, hspec.2.1, hspec.2.1.wellQueued hwf hspec.1 hspec.2.2⟩
  have hopen : ∀ {k : ℕ}, (p.client k).connectState ≠ 0 → (p.client k).hasSocket = true :=
    fun hstate ↦ by simp [Clients.hasSocket, hstate]
  cases step_cases hstep with
  | processCommand hturn => exact moves_processCommand hwf hturn
  | connectFailed _ hstate =>
    exact ⟨p.only_connectFailed _, moves_connectFailed hwf (hopen hstate)⟩
  | connecting _ hstate =>
    refine ⟨p.only_setClient _ _, .kept ?_ ?_ Iff.rfl nofun, hwf.nodup⟩
    · rw [client_setClient_self]
    · rw [client_setClient_self]
      simp [Clients.hasSocket, hstate]
  | disconnectInternal _ _ =>
    exact ⟨p.only_disconnectInternal _, moves_disconnectInternal hwf _ nofun⟩
  | closeOnly _ hsocket _ => exact moves_closeOnly hwf hsocket
  | connack _ rc hsocket => exact moves_receiveConnack hwf rc hsocket
  | takeResponse _ msgId callback hcallback => exact moves_takeResponse hwf _ msgId hcallback
  | messageArrived _ _ => exact ⟨.refl p _, moves_kept hwf rfl rfl (by rintro c ⟨⟩; rfl)⟩
  | writeComplete _ command rest hresponses =>
    exact ⟨p.only_setHandle _ _, moves_kept hwf (client_setHandle_self ..) rfl
      (by rintro c ⟨⟩; rfl)⟩

/-! ### What the application asks -/

/-- **A new client** is connecting; nothing else changes. -/
theorem create_connect {p : Paho} (hwf : p.WellQueued) (serverURI clientId : Bytes)
    (keepAliveInterval : ℤ) (cleansession : Bool) :
    let created := p.mqttAsyncCreate serverURI clientId
    let p' := created.2.mqttAsyncConnect created.1 keepAliveInterval cleansession
    created.1 = p.count ∧ p'.count = p.count + 1 ∧ p'.WellQueued ∧ p'.Live p.count ∧
      Unused (p'.handle p.count) ∧
      (∀ k, k ≠ p.count → (p'.handle k = p.handle k ∧ (p'.Live k ↔ p.Live k))) ∧
      ∀ command ∈ p'.commands, command ∈ p.commands ∨ command = ⟨p.count, 0, .connect 0⟩ := by
  -- Nothing in the queue can be about a handle that does not exist yet.
  have hnew : ¬ p.Live p.count := fun hlive ↦ (hwf.known _ hlive).ne rfl
  have hdetached : p.count ∉ p.connecting := fun hmem ↦ hnew (.inl hmem)
  set m : MqttAsyncs :=
    { serverURI := if uriTcp.isPrefixOf serverURI then serverURI.drop uriTcp.length else serverURI
      c := ⟨clientId, false, 0, false, 0, 0⟩
      connectVersion := 0
      pendingWrite := false
      responses := [] } with hm
  set q : Paho := { p.setHandle p.count m with count := p.count + 1 } with hq
  have hhandle : q.handle p.count = m := Function.update_self ..
  set c : Clients :=
    { q.client p.count with keepAliveInterval := keepAliveInterval, cleansession := cleansession }
    with hc
  have hqueued : ((q.setClient p.count c).mqttAsyncAddCommand ⟨p.count, 0, .connect 0⟩).connecting =
      p.count :: p.connecting := connecting_addCommand_connect 0 hdetached
  have hself : ((q.setClient p.count c).mqttAsyncAddCommand ⟨p.count, 0, .connect 0⟩).handle
      p.count = { m with c := c } := by
    rw [handle_addCommand, setClient, handle_setHandle, Function.update_self, hhandle]
  have hkeep : ∀ k, k ≠ p.count →
      ((q.setClient p.count c).mqttAsyncAddCommand ⟨p.count, 0, .connect 0⟩).handle k =
        p.handle k := fun k hne ↦ by
    rw [handle_addCommand, setClient, handle_setHandle, Function.update_of_ne hne]
    exact Function.update_of_ne hne ..
  have hlive : ∀ k, k ≠ p.count →
      (((q.setClient p.count c).mqttAsyncAddCommand ⟨p.count, 0, .connect 0⟩).Live k ↔ p.Live k) :=
    fun k hne ↦ by
      rw [Live, Live, hqueued, client, hkeep k hne, client, List.mem_cons]
      exact or_congr_left (or_iff_right hne)
  have hunused : Unused
      (((q.setClient p.count c).mqttAsyncAddCommand ⟨p.count, 0, .connect 0⟩).handle p.count) := by
    rw [hself]
    exact ⟨by simp [hc, client, hhandle, hm, Clients.hasSocket], rfl, rfl⟩
  have hcount : ((q.setClient p.count c).mqttAsyncAddCommand ⟨p.count, 0, .connect 0⟩).count =
      p.count + 1 := count_addCommand ..
  refine ⟨rfl, hcount, ⟨?_, fun k hk ↦ ?_, fun k hk ↦ ?_⟩, .inl ?_, hunused, fun k hne ↦
    ⟨hkeep k hne, hlive k hne⟩, fun command hmem ↦ ?_⟩
  · exact hqueued ▸ List.nodup_cons.2 ⟨hdetached, hwf.nodup⟩
  · rcases eq_or_ne k p.count with rfl | hne
    · exact hunused.hasSocket
    · refine (congrArg (fun m ↦ m.c.hasSocket) (hkeep k hne)).trans (hwf.idle k ?_)
      exact (List.mem_cons.1 (hqueued ▸ hk)).resolve_left hne
  · refine lt_of_lt_of_eq ?_ hcount.symm
    rcases eq_or_ne k p.count with rfl | hne
    · exact Nat.lt_succ_self _
    · exact (hwf.known k ((hlive k hne).1 hk)).trans (Nat.lt_succ_self _)
  · exact hqueued ▸ List.mem_cons_self
  · have hqmem : command ∈
        ((q.setClient p.count c).mqttAsyncAddCommand ⟨p.count, 0, .connect 0⟩).commands := hmem
    exact (mem_addCommand hqmem :)

/-! ### How a client is left -/

/-- A connected client is not connecting. -/
def Settled (p : Paho) : Prop :=
  ∀ h, (p.client h).connected = true → (p.client h).connectState = 0

/-- How a step leaves its client. -/
inductive Leaves (p : Paho) (e : PahoEvent) (h : ℕ) (p' : Paho) (cb : Option Callback) : Prop
  /-- As connected as it was, and further only with an attempt under way. -/
  | same (hconnected : (p'.client h).connected = (p.client h).connected)
      (hstate : (p'.client h).connectState = (p.client h).connectState ∨
        (p.client h).connectState ≠ 0) (hcb : cb ≠ some .mqttOnConnect) : Leaves p e h p' cb
  /-- Not connected, as before. -/
  | down (hbefore : (p.client h).connected = false) (hafter : (p'.client h).connected = false)
      (hcb : cb ≠ some .mqttOnConnect) : Leaves p e h p' cb
  /-- Connected, by a CONNACK it has waited for. -/
  | up (hconnected : (p'.client h).connected = true) (hstate : (p'.client h).connectState = 0)
      (he : e = .connack h 0) (hwaiting : (p.client h).connectState = 3) : Leaves p e h p' cb
  /-- Closed. A connected client is closed with a callback that says so, or by a CONNACK. -/
  | closed (hsocket : (p'.client h).hasSocket = false)
      (hcause : (p.client h).connected = true → (p.client h).connectState ≠ 0 ∨
        cb = some .mqttConnlost ∨ cb = some .mqttOnDisconnect ∨ ∃ rc, e = .connack h rc)
      (hcb : cb ≠ some .mqttOnConnect) : Leaves p e h p' cb

theorem hasSocket_connectFailed (p : Paho) (h : ℕ) :
    ((p.connectFailed h).1.client h).hasSocket = false := by
  rw [connectFailed]
  split_ifs
  · rw [client_addCommand]
    exact p.hasSocket_closeOnly h
  · exact p.hasSocket_closeSession h

theorem connectFailed_callback {p : Paho} {h : ℕ} {cb : Callback}
    (hcb : (p.connectFailed h).2 = some cb) : cb = .mqttOnConnectFailure := by
  rw [connectFailed] at hcb
  split_ifs at hcb
  exact (Option.some.inj hcb).symm

theorem client_disconnectInternal (p : Paho) (h : ℕ) :
    (p.mqttAsyncDisconnectInternal h).client = p.client := by
  rw [mqttAsyncDisconnectInternal, mqttAsyncDisconnect1]
  split_ifs
  · exact client_addCommand ..
  · rfl

/-- A CONNECT is processed. -/
theorem leaves_processConnect (p : Paho) (e : PahoEvent) (h version : ℕ) (tcp : Tcp) :
    p.Leaves e h (p.processConnect h version tcp).1 (p.processConnect h version tcp).2 := by
  have hsame : ∀ (q : Paho) cb, q.client h = p.client h → cb ≠ some .mqttOnConnect →
      p.Leaves e h q cb := fun q _ hq ↦ .same (by rw [hq]) (.inl (by rw [hq]))
  have hopen : ∀ m : MqttAsyncs, (p.client h).connected = false →
      m.c.connected = (p.client h).connected → p.Leaves e h (p.setHandle h m) none := by
    intro m hbefore hm
    refine .down hbefore ?_ (by simp)
    rw [client_setHandle_self, hm, hbefore]
  rw [processConnect]
  by_cases hbusy : ((p.handle h).c.connectState ≠ 0 || (p.handle h).c.connected) = true
  · simp only [if_pos hbusy]
    exact hsame _ _ (client_setHandle_self ..) (by simp)
  · have hbefore : (p.client h).connected = false :=
      (Bool.or_eq_false_iff.1 (Bool.eq_false_iff.2 hbusy)).2
    simp only [if_neg hbusy]
    generalize (if version = 0 then 4 else if version = 4 then 3 else version) = version'
    cases tcp with
    | inProgress => exact hopen _ hbefore rfl
    | sent => exact hopen _ hbefore rfl
    | failed =>
      dsimp only
      split_ifs
      · exact hsame _ _ (by rw [client_addCommand]) (by simp)
      · exact hsame _ _ rfl (by simp)

/-- A DISCONNECT is processed. -/
theorem leaves_processDisconnect (p : Paho) (e : PahoEvent) (h : ℕ) (internal : Bool) :
    p.Leaves e h (p.processDisconnect h internal).1 (p.processDisconnect h internal).2 := by
  rw [processDisconnect]
  by_cases hopen : ((p.client h).connectState ≠ 0 || (p.client h).connected) = true
  · simp only [if_pos hopen]
    refine .closed (p.hasSocket_closeSession h) (fun hconnected ↦ .inr ?_) ?_
    · cases internal
      · exact .inr (.inl rfl)
      · exact .inl (if_pos hconnected)
    · split_ifs <;> simp
  · simp only [if_neg hopen]
    exact .same rfl (.inl rfl) (by simp)

/-- A PUBLISH or SUBSCRIBE is written. -/
theorem leaves_processPacket (p : Paho) (e : PahoEvent) (command : Command) (write : Write) :
    p.Leaves e command.client (p.processPacket command write).1
      (p.processPacket command write).2 := by
  have hsame : ∀ (q : Paho) cb, q.client command.client = p.client command.client →
      cb ≠ some .mqttOnConnect → p.Leaves e command.client q cb := fun q _ hq ↦
    .same (by rw [hq]) (.inl (by rw [hq]))
  have hset : ∀ (m : MqttAsyncs) (cb : Option Callback), m.c = p.client command.client →
      cb ≠ some .mqttOnConnect → p.Leaves e command.client (p.setHandle command.client m) cb :=
    fun m cb hm ↦ hsame _ cb ((p.client_setHandle_self command.client m).trans hm)
  have hwait := hset { p.handle command.client with
    responses := (p.handle command.client).responses ++ [command] } none rfl (by simp)
  have hdown := fun cb ↦ hsame (p.mqttAsyncDisconnectInternal command.client) cb
    (by rw [client_disconnectInternal])
  unfold processPacket
  dsimp only
  rcases command.details with version | internal | ⟨name, payload, qos, retained⟩ | ⟨topic, qos⟩
  · exact hwait
  · exact hwait
  · rcases qos with - | qos <;> cases write
    · exact hsame p (some .mqttOnPublish) rfl (by simp)
    · exact hset _ none rfl (by simp)
    · exact hset _ none rfl (by simp)
    · exact hwait
    · exact hwait
    · exact hdown none (by simp)
  · cases write
    · exact hwait
    · exact hwait
    · exact hdown (some .mqttOnSubscribeFailure) (by simp)

/-- A command is taken from the queue. -/
theorem leaves_processCommand {p p' : Paho} {canSend : ℕ → Bool} {tcp : Tcp} {write : Write}
    (e : PahoEvent) {h : ℕ} {cb : Option Callback}
    (hstep : p.mqttAsyncProcessCommand canSend tcp write = some (p', h, cb)) :
    p.Leaves e h p' cb := by
  rw [mqttAsyncProcessCommand, Option.map_eq_some_iff] at hstep
  obtain ⟨command, -, hdone⟩ := hstep
  -- Taking the command off the queue leaves every client as it is.
  have hdetached : ∀ {q : Paho} {cb}, { p with commands := p.commands.erase command }.Leaves e
      command.client q cb → p.Leaves e command.client q cb := fun hleaves ↦ by
    cases hleaves with
    | same hconnected hstate hcb => exact .same hconnected hstate hcb
    | down hbefore hafter hcb => exact .down hbefore hafter hcb
    | up hconnected hstate he hwaiting => exact .up hconnected hstate he hwaiting
    | closed hsocket hcause hcb => exact .closed hsocket hcause hcb
  rcases hdetails : command.details with version | internal | ⟨name, payload, qos, retained⟩ |
    ⟨topic, qos⟩ <;> simp only [hdetails, Prod.mk.injEq] at hdone <;>
    obtain ⟨rfl, rfl, rfl⟩ := hdone
  · exact hdetached (leaves_processConnect ..)
  · exact hdetached (leaves_processDisconnect ..)
  · exact hdetached (leaves_processPacket ..)
  · exact hdetached (leaves_processPacket ..)

/-- A CONNACK is read. -/
theorem leaves_receiveConnack (p : Paho) (h rc : ℕ) :
    p.Leaves (.connack h rc) h (p.receiveConnack h rc).1 (p.receiveConnack h rc).2 := by
  rw [receiveConnack]
  by_cases hcomplete : ((p.client h).connectState = 3 && rc = 0) = true
  · obtain ⟨hwaiting, hrc⟩ := Bool.and_eq_true_iff.1 hcomplete
    have he : PahoEvent.connack h rc = .connack h 0 := by rw [of_decide_eq_true hrc]
    simp only [if_pos hcomplete]
    split_ifs
    · refine .up ?_ ?_ he (of_decide_eq_true hwaiting) <;>
        rw [client_cleanSession_self, client_setClient_self]
    · refine .up ?_ ?_ he (of_decide_eq_true hwaiting) <;> rw [client_setClient_self]
  · simp only [if_neg hcomplete]
    exact .closed (p.hasSocket_connectFailed h) (fun _ ↦ .inr (.inr (.inr ⟨rc, rfl⟩)))
      fun hcb ↦ nomatch connectFailed_callback hcb

/-- A response is taken off its list. -/
theorem leaves_takeResponse (p : Paho) (e : PahoEvent) (h msgId : ℕ)
    {callback : Command → Option Callback}
    (hcallback : ∀ command c, callback command = some c → c.aboutConnection = false) :
    p.Leaves e h (p.takeResponse h msgId callback).1 (p.takeResponse h msgId callback).2 := by
  rw [takeResponse]
  rcases hfind : (p.handle h).responses.find? fun cmd ↦ cmd.token == msgId with - | command <;>
    simp only [hfind]
  · exact .same rfl (.inl rfl) (by simp)
  · have hclient := p.client_setHandle_self h
      { p.handle h with responses := (p.handle h).responses.erase command }
    refine .same (by rw [hclient]; rfl) (.inl (by rw [hclient]; rfl)) fun hcb ↦ ?_
    cases hcallback command _ hcb

/-- **Every step** leaves its client in one of these ways. -/
theorem step_leaves {p p' : Paho} {e : PahoEvent} {h : ℕ} {cb : Option Callback}
    (hstep : p.step e = some (p', h, cb)) : p.Leaves e h p' cb := by
  -- A failed attempt closes the client; it was not connected then.
  have hfailed : ∀ {k}, (p.client k).connectState ≠ 0 →
      p.Leaves e k (p.connectFailed k).1 (p.connectFailed k).2 := fun hstate ↦
    .closed (p.hasSocket_connectFailed _) (fun _ ↦ .inl hstate)
      fun hcb ↦ nomatch connectFailed_callback hcb
  have hdown : ∀ k, p.Leaves e k (p.mqttAsyncDisconnectInternal k) none := fun k ↦
    .same (by rw [client_disconnectInternal]) (.inl (by rw [client_disconnectInternal])) (by simp)
  cases step_cases hstep with
  | processCommand hturn => exact leaves_processCommand _ hturn
  | connectFailed _ hstate => exact hfailed hstate
  | connecting _ hstate =>
    exact .same (by rw [client_setClient_self]) (.inr (by omega)) (by simp)
  | disconnectInternal _ _ => exact hdown _
  | closeOnly _ _ hconnected =>
    exact .closed (p.hasSocket_closeOnly _) (fun h ↦ absurd h hconnected) (by simp)
  | connack _ rc _ => exact leaves_receiveConnack ..
  | takeResponse _ msgId callback hcallback => exact leaves_takeResponse _ _ _ _ hcallback
  | messageArrived _ _ => exact .same rfl (.inl rfl) (by simp)
  | writeComplete _ command rest hresponses =>
    have hclient := p.client_setHandle_self h
      { p.handle h with pendingWrite := false, responses := rest }
    exact .same (by rw [hclient]; rfl) (.inl (by rw [hclient]; rfl)) (by simp)

theorem settled_init : init.Settled := fun _ h ↦ nomatch h

/-- A step keeps the clients settled. -/
theorem Settled.step {p p' : Paho} (hp : p.Settled) {e : PahoEvent} {h : ℕ} {cb : Option Callback}
    (hstep : p.step e = some (p', h, cb)) (honly : p.Only h p') : p'.Settled := by
  intro k hk
  rcases eq_or_ne k h with rfl | hne
  · cases step_leaves hstep with
    | same hconnected hstate _ =>
      have hbefore : (p.client k).connectState = 0 := hp k (hconnected ▸ hk)
      exact (hstate.resolve_right (not_not.2 hbefore)).trans hbefore
    | down _ hafter _ =>
      rw [hafter] at hk
      cases hk
    | up _ hstate _ _ => exact hstate
    | closed hsocket _ _ => simp [Clients.hasSocket, hk] at hsocket
  · rw [honly.client k hne] at hk ⊢
    exact hp k hk

/-- A connected client is disconnected by a step only if a callback reports it, or by a CONNACK. -/
theorem Settled.connected_or {p p' : Paho} (hp : p.Settled) {e : PahoEvent} {h : ℕ}
    {cb : Option Callback} (hstep : p.step e = some (p', h, cb))
    (hconnected : (p.client h).connected = true) : (p'.client h).connected = true ∨
      cb = some .mqttConnlost ∨ cb = some .mqttOnDisconnect ∨ ∃ rc, e = .connack h rc := by
  cases step_leaves hstep with
  | same hsame _ _ => exact .inl (hsame.trans hconnected)
  | down hbefore _ _ =>
    rw [hconnected] at hbefore
    cases hbefore
  | up hafter _ _ _ => exact .inl hafter
  | closed _ hcause _ => exact .inr ((hcause hconnected).resolve_left (not_not.2 (hp h hconnected)))

/-- Only a CONNACK that a client has waited for is a success. -/
theorem connack_of_onConnect {p p' : Paho} {e : PahoEvent} {h : ℕ}
    (hstep : p.step e = some (p', h, some .mqttOnConnect)) :
    e = .connack h 0 ∧ (p.client h).connectState = 3 := by
  cases step_leaves hstep with
  | same _ _ hcb => exact absurd rfl hcb
  | down _ _ hcb => exact absurd rfl hcb
  | up _ _ he hwaiting => exact ⟨he, hwaiting⟩
  | closed _ _ hcb => exact absurd rfl hcb

/-- Two states with the same connections. -/
structure SameConnections (p p' : Paho) : Prop where
  /-- The same handles. -/
  count : p'.count = p.count
  /-- The same CONNECTs in the queue. -/
  connecting : p'.connecting = p.connecting
  /-- The same clients connected. -/
  connected : ∀ k, (p'.client k).connected = (p.client k).connected
  /-- The same attempts under way. -/
  connectState : ∀ k, (p'.client k).connectState = (p.client k).connectState
  /-- The same sockets. -/
  hasSocket : ∀ k, (p'.client k).hasSocket = (p.client k).hasSocket

namespace SameConnections

variable {p p' p'' : Paho}

theorem refl (p : Paho) : p.SameConnections p :=
  ⟨rfl, rfl, fun _ ↦ rfl, fun _ ↦ rfl, fun _ ↦ rfl⟩

theorem trans (h₁ : p.SameConnections p') (h₂ : p'.SameConnections p'') : p.SameConnections p'' :=
  ⟨h₂.count.trans h₁.count, h₂.connecting.trans h₁.connecting,
    fun k ↦ (h₂.connected k).trans (h₁.connected k),
    fun k ↦ (h₂.connectState k).trans (h₁.connectState k),
    fun k ↦ (h₂.hasSocket k).trans (h₁.hasSocket k)⟩

theorem live_iff (hsame : p.SameConnections p') (k : ℕ) : p'.Live k ↔ p.Live k := by
  rw [Live, Live, hsame.connecting, hsame.hasSocket]

theorem wellQueued (hsame : p.SameConnections p') (hwf : p.WellQueued) : p'.WellQueued where
  nodup := hsame.connecting ▸ hwf.nodup
  idle k hk := (hsame.hasSocket k).trans (hwf.idle k (hsame.connecting ▸ hk))
  known k hlive := hsame.count ▸ hwf.known k ((hsame.live_iff k).1 hlive)

/-- A command that is no CONNECT. -/
theorem addCommand (p : Paho) {command : Command} (hcmd : command.isConnect = false) :
    p.SameConnections (p.mqttAsyncAddCommand command) :=
  ⟨count_addCommand .., connecting_addCommand hcmd, fun k ↦ by rw [client_addCommand],
    fun k ↦ by rw [client_addCommand], fun k ↦ by rw [client_addCommand]⟩

/-- A new message id. -/
theorem assignMsgId {h msgid : ℕ} (hassign : p.mqttAsyncAssignMsgId h = some (msgid, p')) :
    p.SameConnections p' := by
  rw [mqttAsyncAssignMsgId, Option.map_eq_some_iff] at hassign
  obtain ⟨id, -, hset⟩ := hassign
  obtain ⟨rfl, rfl⟩ := Prod.mk.inj hset
  split_ifs
  · refine ⟨rfl, rfl, fun k ↦ ?_, fun k ↦ ?_, fun k ↦ ?_⟩ <;> rcases eq_or_ne k h with rfl | hne
    · rw [client_setClient_self]
    · rw [client_setClient_of_ne _ _ hne]
    · rw [client_setClient_self]
    · rw [client_setClient_of_ne _ _ hne]
    · rw [client_setClient_self]
      rfl
    · rw [client_setClient_of_ne _ _ hne]
  · exact refl p

theorem settled (hsame : p.SameConnections p') (hp : p.Settled) : p'.Settled := fun k hk ↦
  (hsame.connectState k).trans (hp k ((hsame.connected k).symm.trans hk))

end SameConnections

/-- `MQTTAsync_send` with success: a command is queued, with a new message id where it needs one. -/
theorem send_success {p p' : Paho} {h : ℕ} {destinationName payload : Bytes}
    {payloadlen qos : ℤ} {retained : ℕ}
    (hsend : p.mqttAsyncSend h destinationName payloadlen payload qos retained = .success p') :
    ∃ q command, (q = p ∨ ∃ msgid, p.mqttAsyncAssignMsgId h = some (msgid, q)) ∧
      command.isConnect = false ∧ p' = q.mqttAsyncAddCommand command := by
  rw [mqttAsyncSend] at hsend
  rcases hid : (if qos > 0 then p.mqttAsyncAssignMsgId h else some (0, p)) with - | ⟨msgid, q⟩ <;>
    simp only [hid] at hsend
  · split_ifs at hsend
  · have hq : q = p ∨ ∃ msgid, p.mqttAsyncAssignMsgId h = some (msgid, q) := by
      split_ifs at hid
      · exact .inr ⟨msgid, hid⟩
      · exact .inl (Prod.mk.inj (Option.some.inj hid)).2.symm
    split_ifs at hsend
    exact ⟨q, _, hq, rfl, (Called.success.inj hsend).symm⟩

/-- `MQTTAsync_subscribe` with success. -/
theorem subscribe_success {p p' : Paho} {h : ℕ} {topic : Bytes} {qos : ℤ}
    (hsubscribe : p.mqttAsyncSubscribe h topic qos = .success p') :
    ∃ q command, (q = p ∨ ∃ msgid, p.mqttAsyncAssignMsgId h = some (msgid, q)) ∧
      command.isConnect = false ∧ p' = q.mqttAsyncAddCommand command := by
  rw [mqttAsyncSubscribe] at hsubscribe
  rcases hid : p.mqttAsyncAssignMsgId h with - | ⟨msgid, q⟩ <;> simp only [hid] at hsubscribe
  · split_ifs at hsubscribe
  · split_ifs at hsubscribe
    exact ⟨q, _, .inr ⟨msgid, rfl⟩, rfl, (Called.success.inj hsubscribe).symm⟩

/-- **A request that Paho accepts**: a command is queued, with a new message id where it needs
one. -/
theorem call_done {p p' : Paho} {h : ℕ} {op : Api} (hcall : op.call p h = .done p') :
    ∃ q command, (q = p ∨ ∃ msgid, p.mqttAsyncAssignMsgId h = some (msgid, q)) ∧
      command.isConnect = false ∧ p' = q.mqttAsyncAddCommand command := by
  cases op with
  | disconnect =>
    simp only [Api.call, mqttAsyncDisconnect1] at hcall
    split_ifs at hcall
    exact ⟨p, _, .inl rfl, rfl, (Outcome.done.inj hcall).symm⟩
  | publish topic payload qos retain =>
    simp only [Api.call, Wrapper.strToCstr] at hcall
    split_ifs at hcall
    rcases hsend : p.mqttAsyncSend h topic (toInt32 payload.length) payload (qos.getD 0)
      (retain.getD false).toNat with q | rc | - <;> simp only [hsend, reduceCtorEq] at hcall
    obtain rfl := Outcome.done.inj hcall
    exact send_success hsend
  | subscribe topic qos =>
    simp only [Api.call, Wrapper.strToCstr] at hcall
    split_ifs at hcall
    rcases hsubscribe : p.mqttAsyncSubscribe h topic (qos.getD 0) with q | rc | - <;>
      simp only [hsubscribe, reduceCtorEq] at hcall
    obtain rfl := Outcome.done.inj hcall
    exact subscribe_success hsubscribe

/-- **The requests on an open connection** change no connection. -/
theorem sameConnections_call {p p' : Paho} {h : ℕ} {op : Api} (hcall : op.call p h = .done p') :
    p.SameConnections p' := by
  obtain ⟨q, command, hid, hcommand, rfl⟩ := call_done hcall
  obtain rfl | ⟨msgid, hassign⟩ := hid
  · exact .addCommand q hcommand
  · exact (SameConnections.assignMsgId hassign).trans (.addCommand q hcommand)

end Paho
