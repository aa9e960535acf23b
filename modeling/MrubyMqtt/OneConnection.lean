import MrubyMqtt.System

/-!
# One connection per process

`mqtt_connect` refuses to create a second client only while `mqtt_connected` is TRUE, and the flag
is set by the callback of a successful connect, much later than the client is created. So there is
at most one live client exactly along the runs in which `connect` is called only while every live
client has been **announced**, that is, while the handler has been told of its success
(`one_connection_iff`).
-/

open Bytes

namespace System

/-- At most one client is connecting or connected. -/
def AtMostOneLive (s : System) : Prop := ∀ h k, s.paho.Live h → s.paho.Live k → h = k

/-- A `connect` that is called while a client is live raises, and creates nothing. -/
def ConnectRefused (s : System) (e : SystemEvent) (s' : System) : Prop :=
  ∀ c h, e = .connect c → s.paho.Live h →
    s.wrapper.mqttConnect s.paho = .raised .alreadyConnected ∧ s'.paho.count = s.paho.count

/-- The handler has been told that the client is connected. -/
def Announced (s : System) (h : ℕ) : Prop := (.onConnectCallback, h) ∈ s.handlerCalls

/-- A handler call announces a client if it is that of a success. -/
theorem announced_append_iff {p : Paho} {w : Wrapper} {frames : Thread → Option Frame}
    {mutex : Option Thread} {connects : Caller → Option Connecting}
    {handlerCalls : List (Method × ℕ)} {cb : Callback} {h k : ℕ} :
    (System.mk p w frames mutex connects (handlerCalls ++ [(cb.method, h)])).Announced k ↔
      (.onConnectCallback, k) ∈ handlerCalls ∨ cb = .mqttOnConnect ∧ k = h := by
  rw [Announced, List.mem_append, List.mem_singleton, Prod.mk.injEq,
    Callback.method_eq_onConnectCallback_iff]

/-- Where `connect` is called, every live client has been announced. -/
def ConnectSettled (s : System) (e : SystemEvent) : Prop :=
  ∀ c h, e = .connect c → s.paho.Live h → s.Announced h

/-- While there is one live client at most, the flag tells whether it has been announced. -/
structure OneLive (s : System) : Prop where
  /-- The system's invariant. -/
  wf : s.Wf
  /-- There is one live client at most. -/
  atMostOne : s.AtMostOneLive
  /-- The flag is its announcement. -/
  flag : ∀ h, s.paho.Live h → (s.Announced h ↔ s.wrapper.mqttConnected = true)
  /-- Only clients that exist are announced. -/
  known : ∀ h, s.Announced h → h < s.paho.count

theorem oneLive_init : init.OneLive where
  wf := wf_init
  atMostOne h _ hlive _ := absurd (wf_init.wellQueued.known h hlive) (Nat.not_lt_zero h)
  flag h hlive := absurd (wf_init.wellQueued.known h hlive) (Nat.not_lt_zero h)
  known _ hannounced := nomatch hannounced

/-- While one client at most is live, a `connect` is refused as it should be exactly where it is
called in a settled state. -/
theorem OneLive.refused_iff {cfg : Config} {s s' : System} {e : SystemEvent} (hs : s.OneLive)
    (hmoves : Moves cfg s e s') : ConnectRefused s e s' ↔ s.ConnectSettled e := by
  constructor
  · rintro hrefused c h rfl hlive
    have hflag := Wrapper.mqttConnect_eq_alreadyConnected_iff.1 (hrefused c h rfl hlive).1
    exact (hs.flag h hlive).2 hflag
  · rintro hsettled c h rfl hlive
    have hflag : s.wrapper.mqttConnected = true := (hs.flag h hlive).1 (hsettled c h rfl hlive)
    refine ⟨Wrapper.mqttConnect_eq_alreadyConnected_iff.2 hflag, ?_⟩
    cases hmoves with
    | raised _ => rfl
    | created _ _ _ hdown _ _ _ _ _ _ =>
      rw [hdown] at hflag
      cases hflag

/-- Fewer clients are live, and flag and announcements are as before. -/
theorem OneLive.mono {s s' : System} (hs : s.OneLive) (hs' : s'.Wf)
    (hlive : ∀ h, s'.paho.Live h → s.paho.Live h) (hcount : s'.paho.count = s.paho.count)
    (hflag : s'.wrapper.mqttConnected = s.wrapper.mqttConnected)
    (hannounced : ∀ h, s'.Announced h ↔ s.Announced h) : s'.OneLive where
  wf := hs'
  atMostOne h k hh hk := hs.atMostOne h k (hlive h hh) (hlive k hk)
  flag h hh := by
    rw [hannounced, hflag]
    exact hs.flag h (hlive h hh)
  known h hh := (hs.known h ((hannounced h).1 hh)).trans_eq hcount.symm

/-- **A step from one live client at most**, if a `connect` is settled, leads to one at most. -/
theorem OneLive.step {cfg : Config} {s s' : System} {e : SystemEvent} (hs : s.OneLive)
    (hs' : s'.Wf) (hmoves : Moves cfg s e s') (hsettled : s.ConnectSettled e) : s'.OneLive := by
  cases hmoves with
  | raised _ => exact hs
  | created c paho mutex hflag hwf hcount hlive hdown hother _ =>
    -- The guard has found the flag FALSE, so no live client is announced: there is none.
    have hnone : ∀ h, ¬ s.paho.Live h := fun h hh ↦ by
      have hup : s.wrapper.mqttConnected = true := (hs.flag h hh).1 (hsettled c h rfl hh)
      rw [hflag] at hup
      cases hup
    have honly : ∀ h, paho.Live h → h = s.paho.count := fun h hh ↦ by
      by_contra hne
      exact hnone h ((hother h hne).2.1 hh)
    refine ⟨hs', fun h k hh hk ↦ (honly h hh).trans (honly k hk).symm, fun h hh ↦ ?_, fun h hh ↦ ?_⟩
    · refine iff_of_false (fun hannounced ↦ ?_) (by simp [hflag])
      exact (hs.known h hannounced).ne (honly h hh)
    · exact (hs.known h hh).trans (hcount ▸ Nat.lt_succ_self _)
  | connectNext c x hx =>
    cases x <;> exact hs.mono hs' (fun _ hh ↦ hh) rfl rfl fun _ ↦ Iff.rfl
  | asked c op paho hsame _ =>
    exact hs.mono hs' (fun h hh ↦ (hsame.live_iff h).1 hh) hsame.count rfl fun _ ↦ Iff.rfl
  | assigned c value wrapper hsame =>
    exact hs.mono hs' (fun _ hh ↦ hh) rfl hsame.mqttConnected fun _ ↦ Iff.rfl
  | silent e paho h hstep =>
    exact hs.mono hs' (fun _ hk ↦ live_of_paho hs.wf hstep hk)
      (Paho.step_moves hs.wf.wellQueued hstep).1.count rfl fun _ ↦ Iff.rfl
  | ignored e paho h cb hstep _ =>
    exact hs.mono hs' (fun _ hk ↦ live_of_paho hs.wf hstep hk)
      (Paho.step_moves hs.wf.wellQueued hstep).1.count rfl fun _ ↦ Iff.rfl
  | called e paho h cb m mutex hstep hslot _ =>
    obtain ⟨honly, hmovesPaho, -⟩ := Paho.step_moves hs.wf.wellQueued hstep
    have hback : ∀ k, paho.Live k → s.paho.Live k := fun _ hk ↦ live_of_paho hs.wf hstep hk
    rcases habout : cb.aboutConnection with - | -
    · -- Neither flag nor announcements change.
      refine hs.mono hs' hback honly.count ?_ fun k ↦ ?_
      · exact Callback.flagAfter_of_not_aboutConnection habout _
      · rw [announced_append_iff]
        refine or_iff_left ?_
        rintro ⟨rfl, -⟩
        cases habout
    have hlive : s.paho.Live h := hmovesPaho.live_of_aboutConnection habout
    rcases hclears : cb.clears with - | -
    · -- The one live client is announced.
      obtain rfl : cb = .mqttOnConnect := by
        simpa [Callback.aboutConnection, hclears] using habout
      refine ⟨hs', fun k k' hk hk' ↦ hs.atMostOne k k' (hback k hk) (hback k' hk'), fun k hk ↦ ?_,
        fun k hk ↦ ?_⟩
      · obtain rfl : k = h := hs.atMostOne k h (hback k hk) hlive
        exact iff_of_true (announced_append_iff.2 (.inr ⟨rfl, rfl⟩)) rfl
      · refine lt_of_lt_of_eq ?_ honly.count.symm
        rcases announced_append_iff.1 hk with hk | ⟨-, rfl⟩
        · exact hs.known k hk
        · exact hs.wf.wellQueued.known k hlive
    · -- The one live client has come to its end.
      have hnone : ∀ k, ¬ paho.Live k := fun k hk ↦ by
        obtain rfl : k = h := hs.atMostOne k h (hback k hk) hlive
        exact hmovesPaho.dead_of_clears hclears hk
      refine ⟨hs', fun k _ hk ↦ absurd hk (hnone k), fun k hk ↦ absurd hk (hnone k), fun k hk ↦ ?_⟩
      refine (hs.known k ?_).trans_eq honly.count.symm
      rcases announced_append_iff.1 hk with hk | ⟨rfl, -⟩
      · exact hk
      · cases hclears
  | handlerReturned t f m mutex _ _ =>
    refine hs.mono hs' (fun _ hh ↦ hh) rfl ?_ fun _ ↦ Iff.rfl
    cases f.callback.clears <;> rfl

/-- **One connection per process**, exactly along the runs in which `connect` is called only while
every live client has been announced: then there is one live client at most at any time, and a
`connect` that is called while a client is live raises and creates nothing. -/
theorem one_connection_iff (cfg : Config) (es : List SystemEvent) :
    ((machine cfg).Always AtMostOneLive init es ∧
        (machine cfg).EachStep ConnectRefused init es) ↔
      (machine cfg).EachStep (fun s e _ ↦ s.ConnectSettled e) init es := by
  have hexact : (machine cfg).EachStep ConnectRefused init es ↔
      (machine cfg).EachStep (fun s e _ ↦ s.ConnectSettled e) init es := by
    refine (machine cfg).eachStep_iff (fun s e s' hs hstep ↦ ?_) oneLive_init es
    obtain ⟨hs', hmoves⟩ := step_moves hs.wf hstep
    exact ⟨hs.refused_iff hmoves, hs.step hs' hmoves⟩
  constructor
  · exact fun h ↦ hexact.1 h.2
  · intro hsettled
    refine ⟨?_, hexact.2 hsettled⟩
    refine (machine cfg).always_of_guarded (fun s e s' hs hstep hsettled ↦ ?_)
      (fun s hs ↦ hs.atMostOne) oneLive_init hsettled
    obtain ⟨hs', hmoves⟩ := step_moves hs.wf hstep
    exact hs.step hs' hmoves hsettled

/-- Two calls of `connect`, one after the other, make two live clients. -/
theorem two_connects_live :
    ¬ (machine ⟨true, true⟩).Always AtMostOneLive init
      (configure ++ connectCall .ruby ++ connectCall .ruby) := by
  obtain ⟨t, hrun, hfirst, hsecond⟩ : ∃ t, (machine ⟨true, true⟩).run init
      (configure ++ connectCall .ruby ++ connectCall .ruby) = some t ∧ t.paho.Live 0 ∧
        t.paho.Live 1 := ⟨_, rfl, by decide, by decide⟩
  exact (machine _).not_always_of_run hrun fun hone ↦ absurd (hone 0 1 hfirst hsecond) (by decide)

end System
