import CanisLink.EdgeSteps
/-!
# Armed — an armed agent and the dog it would call for

`social_armed` is a copy of a conjunction: bytes from the UART and a fetched configuration compute it anew, and nothing
else moves what it is made of.  A new agent is armed without having computed it, and would call for a dog that is not
there until the first of these comes.
-/
namespace CanisLink

open Interleave (Prog)

/-- The method sends a request. -/
def Edge.Sends {α : Type} (p : Edge α) : Prop := ∃ r k, p = Prog.call r k

namespace EdgeAgent

/-- The dog is present, the last configuration has neither a stop nor contact disabled, and the agent is not halted. -/
structure SafeToCall (a : EdgeAgent) : Prop where
  present : a.present = true
  config : ∀ c, a.remoteConfig = some c → c.emergencyStop = false ∧ c.socialDisabled = false
  ux : a.ux ≠ .halted

/-- The agent is armed, and `call` sends an invite, only where this is safe. -/
structure ArmedSafe (F : Formats) (a : EdgeAgent) : Prop where
  armed : a.socialArmed = true → a.SafeToCall
  call : ∀ toDog, (a.call F toDog).Sends → a.SafeToCall

/-- The operation computes the armed flag anew. -/
def Rearms (F : Formats) (cfg : EdgeConfig) (o : EdgeOp × (Nat → Answers)) : Prop :=
  o.1.pushed ≠ none ∨ o.1.obtained F cfg o.2 ≠ none

section

variable {F : Formats} {a b : EdgeAgent}

theorem call_sends_iff (toDog : Option DogId) : (a.call F toDog).Sends ↔ a.socialArmed = true := by
  unfold EdgeAgent.call
  cases a.socialArmed with
  | false => simp [Edge.Sends]
  | true => simp [Edge.Sends, http]

theorem armedSafe_iff : a.ArmedSafe F ↔ (a.socialArmed = true → a.SafeToCall) :=
  ⟨ArmedSafe.armed, fun h => ⟨h, fun toDog hsends => h ((call_sends_iff toDog).1 hsends)⟩⟩

theorem SafeToCall.keeps (h : a.SafeToCall) (hk : a.Keeps b) : b.SafeToCall where
  present := by
    unfold EdgeAgent.present
    rw [hk.sense]
    exact h.present
  config := fun c hc => h.config c (hk.config ▸ hc)
  ux := fun e => h.ux (hk.halted e)

/-- Computed anew, the flag says what it is to say. -/
theorem recomputeArmed_safe (h : a.recomputeArmed.socialArmed = true) : a.recomputeArmed.SafeToCall := by
  have hand : (a.present && !(a.remoteConfig.map (·.emergencyStop)).getD false &&
      !(a.remoteConfig.map (·.socialDisabled)).getD false && decide (a.ux ≠ .halted)) = true := h
  simp only [Bool.and_eq_true, Bool.not_eq_true', decide_eq_true_eq] at hand
  obtain ⟨⟨⟨hpresent, hstop⟩, hdisabled⟩, hux⟩ := hand
  refine ⟨hpresent, fun c hc => ?_, hux⟩
  have hc : a.remoteConfig = some c := hc
  rw [hc] at hstop hdisabled
  exact ⟨hstop, hdisabled⟩

theorem ingestUart_safe {bytes : List UInt8} {dtMs : UInt64}
    (h : (a.ingestUart bytes dtMs).2.socialArmed = true) : (a.ingestUart bytes dtMs).2.SafeToCall := by
  obtain ⟨b, hb⟩ : ∃ b : EdgeAgent,
      { a with sense := (a.sense.pushBytes bytes dtMs).2 }.refreshUxFromPresence = b.recomputeArmed := ⟨_, rfl⟩
  rw [ingestUart_snd, hb] at h ⊢
  obtain ⟨hpresent, hconfig, hux⟩ := recomputeArmed_safe h
  exact ⟨hpresent, hconfig, hux⟩

/-- **An operation that computes the flag anew makes it right, and every other leaves it right.** -/
theorem perform_safe {o : EdgeOp × (Nat → Answers)} (hs : o.1.isSample = false)
    (h : Rearms F a.cfg o ∨ (a.socialArmed = true → a.SafeToCall)) :
    ((o.1.perform F a).run o.2).socialArmed = true → ((o.1.perform F a).run o.2).SafeToCall := by
  rcases EdgeOp.perform_cases F a o.1 o.2 hs with ⟨bytes, dtMs, -, hrun⟩ | ⟨hpushed, ⟨c, -, hrun⟩ | ⟨hnone, hkeeps⟩⟩
  · rw [hrun]
    exact ingestUart_safe
  · rw [hrun]
    exact recomputeArmed_safe
  · rcases h with hpush | hsafe
    · exact absurd hpush (not_or.2 ⟨not_not_intro hpushed, not_not_intro hnone⟩)
    · intro harmed
      exact (hsafe (hkeeps.armed ▸ harmed)).keeps hkeeps

theorem runOps_safe {cfg : EdgeConfig} {ops : List (EdgeOp × (Nat → Answers))} (hs : ∀ o ∈ ops, o.1.isSample = false)
    (h : ∃ o ∈ ops, Rearms F cfg o) :
    ((new cfg).runOps F ops).socialArmed = true → ((new cfg).runOps F ops).SafeToCall := by
  induction ops using List.reverseRecOn with
  | nil =>
    obtain ⟨o, ho, -⟩ := h
    cases ho
  | append_singleton ops o ih =>
    have hops : ∀ o' ∈ ops, o'.1.isSample = false := fun o' ho' => hs o' (List.mem_append_left _ ho')
    have hcfg : ((new cfg).runOps F ops).cfg = cfg := ((new cfg).runOps_sense ops hops).1
    rw [runOps_snoc]
    refine perform_safe (hs o (List.mem_append_right _ (List.mem_singleton_self o))) ?_
    rw [hcfg]
    obtain ⟨o', ho', hrearms⟩ := h
    rcases List.mem_append.1 ho' with ho' | ho'
    · exact .inr (ih hops ⟨o', ho', hrearms⟩)
    · rw [List.mem_singleton.1 ho'] at hrearms
      exact .inl hrearms

/-- Nothing having come, a new agent is armed and its dog absent. -/
theorem runOps_unsafe {cfg : EdgeConfig} {ops : List (EdgeOp × (Nat → Answers))} (hs : ∀ o ∈ ops, o.1.isSample = false)
    (h : ¬ ∃ o ∈ ops, Rearms F cfg o) :
    ((new cfg).runOps F ops).socialArmed = true ∧ ((new cfg).runOps F ops).present = false := by
  have hnone : ∀ o ∈ ops, o.1.pushed = none ∧ o.1.obtained F cfg o.2 = none := fun o ho => by
    have hno : ¬ Rearms F cfg o := fun hr => h ⟨o, ho, hr⟩
    rwa [Rearms, not_or, not_not, not_not] at hno
  have hkeeps := runOps_keeps ops hs (new cfg) (fun o ho => (hnone o ho).1) (fun o ho => (hnone o ho).2)
  refine ⟨hkeeps.armed, ?_⟩
  unfold EdgeAgent.present
  rw [hkeeps.sense]
  rfl

end

end EdgeAgent

open EdgeAgent in
/-- **Armed implies safe to call exactly once the agent has computed it**: in every state that a run of the public
methods reaches, with the pipeline driven only through `ingest_uart`, an armed agent has a present dog, no stop and no
halt if and only if bytes have been ingested or a configuration fetched. -/
theorem armed_safe_iff (F : Formats) (cfg : EdgeConfig) (ops : List (EdgeOp × (Nat → Answers)))
    (hs : ∀ o ∈ ops, o.1.isSample = false) :
    ((new cfg).runOps F ops).ArmedSafe F ↔ ∃ o ∈ ops, Rearms F cfg o := by
  rw [armedSafe_iff]
  constructor
  · intro h
    by_contra hnone
    obtain ⟨harmed, habsent⟩ := runOps_unsafe hs hnone
    rw [(h harmed).present] at habsent
    cases habsent
  · exact runOps_safe hs

/-- The dog has come on its mat, and the agent is armed. -/
theorem armed_safe_onMat : ((EdgeAgent.new terminal1).runOps decimals stepsOn).socialArmed = true ∧
    ((EdgeAgent.new terminal1).runOps decimals stepsOn).ArmedSafe decimals := by
  refine ⟨by decide +kernel, (armed_safe_iff decimals terminal1 stepsOn (by simp [stepsOn, EdgeOp.isSample])).2 ?_⟩
  exact ⟨_, List.mem_cons_self, .inl nofun⟩

/-- **A new agent calls for a dog that is not there.** -/
theorem armed_absent : ¬ ∀ (F : Formats) (cfg : EdgeConfig) (ops : List (EdgeOp × (Nat → Answers))),
    (∀ o ∈ ops, o.1.isSample = false) → ((EdgeAgent.new cfg).runOps F ops).ArmedSafe F := by
  intro h
  have hpresent := ((h decimals terminal1 [] (fun _ ho => absurd ho List.not_mem_nil)).armed rfl).present
  cases hpresent

end CanisLink
