import CanisLink.EdgeFollows
import CanisLink.McuEmu
import CanisLink.UartRuns
/-!
# EdgeSteps — which operations bring the agent anything new, and which it reports in

Bytes from the UART go to the sense pipeline, and a fetched configuration is kept; both arm the agent anew.  No other
operation touches the pipeline, the configuration or the armed flag, and none halts the agent.  So over a run the
pipeline is the one that got the bytes of the run's `ingest_uart` calls.  Only `publish_now` reports and counts.
-/
namespace CanisLink

open Interleave (Prog)

namespace EdgeOp

/-- A sample that goes past the UART. -/
def isSample : EdgeOp → Bool
  | pushSample .. => true
  | _ => false

/-- A report of the agent's. -/
def isReport : EdgeOp → Bool
  | publishNow .. => true
  | _ => false

/-- The bytes an operation brings, and the milliseconds since the last. -/
def pushed : EdgeOp → Option (List UInt8 × UInt64)
  | ingestUart bytes dtMs => some (bytes, dtMs)
  | _ => none

/-- The configuration an operation of the terminal's agent fetches. -/
def obtained (F : Formats) (cfg : EdgeConfig) (κ : Nat → Answers) : EdgeOp → Option ConfigV1
  | fetchConfig => (κ 0 (.getConfig ((EdgeAgent.new cfg).authHeader F) (EdgeAgent.new cfg).query)).json.toOption
  | _ => none

end EdgeOp

namespace EdgeAgent

/-- The agent has the same pipeline, configuration and armed flag, and is not newly halted. -/
structure Keeps (a b : EdgeAgent) : Prop where
  cfg : b.cfg = a.cfg
  sense : b.sense = a.sense
  config : b.remoteConfig = a.remoteConfig
  armed : b.socialArmed = a.socialArmed
  halted : b.ux = .halted → a.ux = .halted

theorem Keeps.refl (a : EdgeAgent) : a.Keeps a := ⟨rfl, rfl, rfl, rfl, id⟩

theorem Keeps.trans {a b c : EdgeAgent} (h : a.Keeps b) (h' : b.Keeps c) : a.Keeps c :=
  ⟨h'.cfg.trans h.cfg, h'.sense.trans h.sense, h'.config.trans h.config, h'.armed.trans h.armed,
    fun e => h.halted (h'.halted e)⟩

theorem Move.keeps {a b : EdgeAgent} (h : Move a b) : a.Keeps b := by
  cases h with
  | called ux hux => exact ⟨rfl, rfl, rfl, rfl, fun e => by rcases hux with rfl | rfl | rfl <;> cases e⟩
  | lured o => exact ⟨rfl, rfl, rfl, rfl, nofun⟩
  | accepted s => exact ⟨rfl, rfl, rfl, rfl, nofun⟩
  | joined s ux hux => exact ⟨rfl, rfl, rfl, rfl, fun e => by rcases hux with rfl | rfl <;> cases e⟩
  | updated s => exact ⟨rfl, rfl, rfl, rfl, id⟩
  | ended => exact ⟨rfl, rfl, rfl, rfl, fun e => by cases hp : a.present <;> simp [hp] at e⟩

theorem Moves.keeps {a b : EdgeAgent} (h : Moves a b) : a.Keeps b := by
  induction h with
  | refl => exact Keeps.refl a
  | tail _ hstep ih => exact ih.trans hstep.keeps

end EdgeAgent

section

variable (F : Formats) (a : EdgeAgent) (o : EdgeOp) (κ : Nat → Answers)

/-- **What an operation can bring**: bytes, a configuration, or nothing new. -/
theorem EdgeOp.perform_cases (hs : o.isSample = false) :
    (∃ bytes dtMs, o.pushed = some (bytes, dtMs) ∧ (o.perform F a).run κ = (a.ingestUart bytes dtMs).2) ∨
    o.pushed = none ∧
      ((∃ c, o.obtained F a.cfg κ = some c ∧ (o.perform F a).run κ = a.fetched c) ∨
      o.obtained F a.cfg κ = none ∧ a.Keeps ((o.perform F a).run κ)) := by
  cases o with
  | ingestUart bytes dtMs => exact .inl ⟨bytes, dtMs, rfl, rfl⟩
  | pushSample forceN tofMm motion dtMs => cases hs
  | fetchConfig =>
    have hrun : (EdgeOp.fetchConfig.perform F a).run κ = ((a.fetchConfig F).run κ).2 := by
      unfold EdgeOp.perform Edge.run
      rw [Prog.eval_bind]
      rfl
    refine .inr ⟨rfl, ?_⟩
    rw [hrun, EdgeAgent.fetchConfig_run]
    unfold EdgeOp.obtained
    show (∃ c, (κ 0 (.getConfig (a.authHeader F) a.query)).json.toOption = some c ∧ _) ∨
      (κ 0 (.getConfig (a.authHeader F) a.query)).json.toOption = none ∧ _
    cases (κ 0 (.getConfig (a.authHeader F) a.query)).json with
    | error e => exact .inr ⟨rfl, .refl a⟩
    | ok c => exact .inl ⟨c, rfl, rfl⟩
  | publishNow ts =>
    have hagent : ((EdgeOp.publishNow ts).perform F a).Returns (a.Keeps ·) :=
      (a.publishNow_agent ts).bind (fun r hr => hr ▸ ⟨rfl, rfl, rfl, rfl, id⟩)
    exact .inr ⟨rfl, .inr ⟨rfl, Edge.run_of_returns hagent κ⟩⟩
  | _ => exact .inr ⟨rfl, .inr ⟨rfl, (Edge.run_of_returns (EdgeOp.perform_moves a _ rfl) κ).keeps⟩⟩

end

namespace EdgeAgent

variable {F : Formats}

theorem runOps_snoc (a : EdgeAgent) (ops : List (EdgeOp × (Nat → Answers))) (o : EdgeOp × (Nat → Answers)) :
    a.runOps F (ops ++ [o]) = (o.1.perform F (a.runOps F ops)).run o.2 := by
  unfold runOps
  rw [List.foldl_append]
  rfl

theorem ingestUart_kept (a : EdgeAgent) (bytes : List UInt8) (dtMs : UInt64) :
    (a.ingestUart bytes dtMs).2.cfg = a.cfg ∧ (a.ingestUart bytes dtMs).2.seq = a.seq := by
  rw [ingestUart_snd]
  exact ⟨refreshUxFromPresence_cfg _, refreshUxFromPresence_seq _⟩

theorem fetched_eq (a : EdgeAgent) (c : ConfigV1) : ∃ b : EdgeAgent, b.cfg = a.cfg ∧ b.sense = a.sense ∧
    a.fetched c = { b with remoteConfig := some c }.recomputeArmed := by
  refine ⟨_, ?_, ?_, rfl⟩ <;> (split <;> [split; skip]) <;> rfl

/-- **Over a run without direct samples** the agent keeps its terminal, and its pipeline is the one that got the
bytes. -/
theorem runOps_sense (a : EdgeAgent) (ops : List (EdgeOp × (Nat → Answers)))
    (hs : ∀ o ∈ ops, o.1.isSample = false) : (a.runOps F ops).cfg = a.cfg ∧
      (a.runOps F ops).sense = (a.sense.pushAll (ops.filterMap (·.1.pushed))).2 := by
  induction ops generalizing a with
  | nil => exact ⟨rfl, rfl⟩
  | cons o ops ih =>
    obtain ⟨hcfg, hsense⟩ := ih ((o.1.perform F a).run o.2) (fun o' ho' => hs o' (List.mem_cons_of_mem o ho'))
    show (((o.1.perform F a).run o.2).runOps F ops).cfg = _ ∧ (((o.1.perform F a).run o.2).runOps F ops).sense = _
    rw [hcfg, hsense, List.filterMap_cons]
    rcases EdgeOp.perform_cases F a o.1 o.2 (hs o List.mem_cons_self) with
      ⟨bytes, dtMs, hpushed, hrun⟩ | ⟨hpushed, ⟨c, -, hrun⟩ | ⟨-, hkeeps⟩⟩
    · rw [hpushed, hrun, (a.ingestUart_eq bytes dtMs).2.1]
      exact ⟨(a.ingestUart_kept bytes dtMs).1, rfl⟩
    · obtain ⟨b, hbcfg, hbsense, hb⟩ := a.fetched_eq c
      rw [hpushed, hrun, hb]
      exact ⟨hbcfg, congrArg (fun p => (SensePipeline.pushAll p _).2) hbsense⟩
    · rw [hpushed, hkeeps.sense]
      exact ⟨hkeeps.cfg, rfl⟩

/-- A run that brings nothing leaves the agent as armed as it was. -/
theorem runOps_keeps (ops : List (EdgeOp × (Nat → Answers))) (hs : ∀ o ∈ ops, o.1.isSample = false) (a : EdgeAgent)
    (hpushed : ∀ o ∈ ops, o.1.pushed = none) (hobtained : ∀ o ∈ ops, o.1.obtained F a.cfg o.2 = none) :
    a.Keeps (a.runOps F ops) := by
  induction ops generalizing a with
  | nil => exact .refl a
  | cons o ops ih =>
    have hstep : a.Keeps ((o.1.perform F a).run o.2) := by
      rcases EdgeOp.perform_cases F a o.1 o.2 (hs o List.mem_cons_self) with
        ⟨bytes, dtMs, hsome, -⟩ | ⟨-, ⟨c, hsome, -⟩ | ⟨-, hkeeps⟩⟩
      · rw [hpushed o List.mem_cons_self] at hsome
        cases hsome
      · rw [hobtained o List.mem_cons_self] at hsome
        cases hsome
      · exact hkeeps
    refine hstep.trans (ih (fun o' ho' => hs o' (List.mem_cons_of_mem o ho')) _
      (fun o' ho' => hpushed o' (List.mem_cons_of_mem o ho')) (fun o' ho' => ?_))
    rw [hstep.cfg]
    exact hobtained o' (List.mem_cons_of_mem o ho')

end EdgeAgent

/-! ## What an operation reports -/

namespace EdgeAgent

section

variable {F : Formats} (a : EdgeAgent)

theorem Moves.seq {b : EdgeAgent} (h : Moves a b) : b.seq = a.seq := by
  induction h with
  | refl => rfl
  | tail _ hstep ih => cases hstep <;> exact ih

theorem endSession_posts (reason : EndReason) : (a.endSession F reason).All (·.isPost = false) := by
  unfold EdgeAgent.endSession
  simp only [http, Prog.op_bind, Prog.pure_eq]
  cases a.session with
  | none => trivial
  | some s => exact ⟨rfl, fun _ => trivial⟩

theorem reportMediaReady_posts (ready : Bool) : (a.reportMediaReady F ready).All (·.isPost = false) := by
  unfold EdgeAgent.reportMediaReady
  simp only [http, Prog.op_bind, Prog.pure_eq]
  cases a.session with
  | none => trivial
  | some s =>
    refine ⟨rfl, fun ex => ?_⟩
    dsimp only
    cases ex.json with
    | error e => trivial
    | ok body =>
      obtain ⟨session, both⟩ := body
      rcases session with _ | _ | x
      · trivial
      · trivial
      · show Prog.All _ (if _ then _ else _)
        split <;> trivial

theorem acceptIncoming_posts : (a.acceptIncoming F).All (·.isPost = false) := by
  unfold EdgeAgent.acceptIncoming
  simp only [http, Prog.op_bind, Prog.pure_eq]
  cases a.lastOffer with
  | none => trivial
  | some offer =>
    refine ⟨rfl, fun ex => ?_⟩
    cases ex with
    | failed => trivial
    | answered status body =>
      show Prog.All _ (if _ then _ else _)
      split
      · trivial
      · cases body with
        | none => trivial
        | some resp =>
          refine (reportMediaReady_posts _ true).bind (fun r => ?_)
          obtain ⟨r, b⟩ := r
          cases r <;> trivial

theorem call_posts (toDog : Option DogId) : (a.call F toDog).All (·.isPost = false) := by
  unfold EdgeAgent.call
  simp only [http, Prog.op_bind, Prog.pure_eq]
  split
  · trivial
  · refine ⟨rfl, fun ex => ?_⟩
    cases ex with
    | failed => trivial
    | answered status body =>
      show Prog.All _ (if _ then _ else _)
      split
      · trivial
      · cases body <;> trivial

theorem again_posts : (a.again F).All (·.isPost = false) := by
  unfold EdgeAgent.again
  simp only [http, Prog.op_bind, Prog.pure_eq]
  cases a.session with
  | none => trivial
  | some s =>
    refine ⟨rfl, fun ex => ?_⟩
    dsimp only
    cases ex.json with
    | error e => trivial
    | ok body =>
      obtain ⟨session, both⟩ := body
      rcases session with _ | _ | x <;> trivial

theorem pollIncoming_posts : (a.pollIncoming F).All (·.isPost = false) := by
  unfold EdgeAgent.pollIncoming
  simp only [http, Prog.op_bind, Prog.pure_eq]
  split
  · trivial
  · refine ⟨rfl, fun ex => ?_⟩
    cases ex with
    | failed => trivial
    | answered status body =>
      show Prog.All _ (if _ then _ else _)
      split
      · trivial
      · rcases body with _ | _ | o
        · trivial
        · trivial
        · show Prog.All _ (if _ then _ else _)
          split <;> trivial

theorem syncActive_posts : (a.syncActive F).All (·.isPost = false) := by
  unfold EdgeAgent.syncActive
  simp only [http, Prog.op_bind, Prog.pure_eq]
  refine ⟨rfl, fun ex => ?_⟩
  dsimp only
  cases ex.json with
  | error e => trivial
  | ok found =>
    cases found with
    | none => trivial
    | some s =>
      dsimp only
      by_cases hs : s.state = .active
      · rw [if_pos hs, if_neg (by decide)]
        trivial
      · rw [if_neg hs, if_pos rfl]
        refine (reportMediaReady_posts _ true).bind (fun _ => ?_)
        trivial

theorem fetchConfig_posts : (a.fetchConfig F).All (·.isPost = false) := by
  unfold EdgeAgent.fetchConfig
  simp only [http, Prog.op_bind, Prog.pure_eq]
  refine ⟨rfl, fun ex => ?_⟩
  dsimp only
  cases ex.json with
  | error e => trivial
  | ok c =>
    have halt : (a.halt F).All (·.isPost = false) := by
      unfold EdgeAgent.halt
      show Prog.All _ (if _ then _ else _)
      split
      · refine (endSession_posts _ .emergencyStop).bind (fun _ => ?_)
        trivial
      · trivial
    dsimp only
    split
    · refine halt.bind (fun _ => ?_)
      trivial
    · trivial

theorem handleIntent_posts (i : Intent) : (a.handleIntent F i).All (·.isPost = false) := by
  unfold EdgeAgent.handleIntent
  split
  · exact (a.call_posts none).bind (fun _ => trivial)
  split
  · exact a.acceptIncoming_posts.bind (fun _ => trivial)
  split
  · exact a.again_posts
  split
  · exact a.endSession_posts .done
  · trivial

theorem fetchConfig_kept : (a.fetchConfig F).Returns
    (fun r => r.2.cfg = a.cfg ∧ r.2.seq = a.seq ∧ r.2.sense = a.sense) := by
  unfold EdgeAgent.fetchConfig
  simp only [http, Prog.op_bind, Prog.pure_eq]
  intro ex
  dsimp only
  cases ex.json with
  | error e => exact ⟨rfl, rfl, rfl⟩
  | ok c =>
    have halt : (a.halt F).Returns
        (fun b => b.cfg = a.cfg ∧ b.seq = a.seq ∧ b.sense = a.sense) := by
      unfold EdgeAgent.halt
      show Prog.Returns _ (if _ then _ else _)
      split
      · exact (moves_endSession _ _).bind (fun r hr =>
          ⟨(Moves.keeps hr).cfg, (Moves.seq _ hr :), (Moves.keeps hr).sense⟩)
      · exact ⟨rfl, rfl, rfl⟩
    dsimp only
    split
    · exact halt.bind (fun b hb => hb)
    · exact ⟨rfl, rfl, rfl⟩

end
end EdgeAgent

section

variable {F : Formats} (a : EdgeAgent) (o : EdgeOp)

/-- **A report is sent by `publish_now`**, and is the agent's next one. -/
theorem EdgeOp.perform_posts : (o.perform F a).All (fun r => ∀ h rep, r = .postPresence h rep →
    ∃ ts, o = .publishNow ts ∧ rep = (a.nextReport ts).1) := by
  have none : ∀ {α : Type} {p : Edge α} {f : α → EdgeAgent}, p.All (·.isPost = false) →
      (p >>= fun r => Prog.done (f r)).All (fun r => ∀ h rep, r = .postPresence h rep →
        ∃ ts, o = .publishNow ts ∧ rep = (a.nextReport ts).1) := by
    intro α p f hp
    refine (hp.mono (fun r hr h rep e => ?_)).bind (fun _ => trivial)
    rw [e] at hr
    cases hr
  cases o with
  | ingestUart bytes dtMs => trivial
  | pushSample forceN tofMm motion dtMs => trivial
  | publishNow ts =>
    refine ⟨fun h rep e => ?_, fun ex => ?_⟩
    · obtain ⟨-, rfl⟩ := Request.postPresence.inj e
      exact ⟨ts, rfl, rfl⟩
    · cases ex with
      | failed => trivial
      | answered status body =>
        show Prog.All _ ((if _ then _ else _) >>= _)
        split <;> trivial
  | fetchConfig => exact none a.fetchConfig_posts
  | call toDog => exact none (a.call_posts toDog)
  | pollIncoming => exact none a.pollIncoming_posts
  | acceptIncoming => exact none a.acceptIncoming_posts
  | reportMediaReady ready => exact none (a.reportMediaReady_posts ready)
  | again => exact none a.again_posts
  | endSession reason => exact none (a.endSession_posts reason)
  | syncActive => exact none a.syncActive_posts
  | handleIntent i => exact none (a.handleIntent_posts i)

/-- **The agent counts its reports**, and nothing else. -/
theorem EdgeOp.perform_seq : (o.perform F a).Returns (fun b => b.cfg = a.cfg ∧
    b.seq = if o.isReport then a.seq + 1 else a.seq) := by
  cases o with
  | ingestUart bytes dtMs => exact a.ingestUart_kept bytes dtMs
  | pushSample forceN tofMm motion dtMs => exact ⟨rfl, rfl⟩
  | publishNow ts => exact (a.publishNow_agent ts).bind (fun r hr => hr ▸ ⟨rfl, rfl⟩)
  | fetchConfig => exact a.fetchConfig_kept.bind (fun _ hr => ⟨hr.1, hr.2.1⟩)
  | _ =>
    exact (EdgeOp.perform_moves a _ rfl).mono
      (fun b hb => ⟨(EdgeAgent.Moves.keeps hb).cfg, EdgeAgent.Moves.seq a hb⟩)

end

/-- The dog steps on the mat and has stayed for the enter window. -/
def stepsOn : List (EdgeOp × (Nat → Answers)) :=
  [(.ingestUart onMat 50, fun _ => nothing), (.ingestUart onMat 800, fun _ => nothing)]

end CanisLink
