import CanisLink.Debounce
import CanisLink.EdgeSteps
import CanisLink.Fleet
/-!
# Sensed — a dog that is shown present was sensed on its mat

Readings go from the UART through the pipeline and the filter into a report, and with it into the presence store, while
everything else in the fleet goes on.  Followed back, a dog is present for device-api only if another client with its
credentials said so, or if the last run of readings its terminal held for its window was of a dog on the mat.
-/
namespace CanisLink

open Interleave (Prog Pool)

/-! ## The samples of a pipeline -/

/-- The sample that a decoded frame makes at that time. -/
def sampleOf (tMs : UInt64) (fr : Frame) : Option SenseSample :=
  if fr.msg ≠ .sense then none
  else (SensePayload.fromBytes fr.payload).map (fun s : SensePayload =>
    { forceN := s.forceN, tofMm := if s.tofMm = 0 then none else some s.tofMm, motion := s.motion, tMs })

namespace SensePipeline

/-- The samples that an operation gives the filter. -/
def samplesIn (p : SensePipeline) : EdgeOp → List SenseSample
  | .ingestUart bytes dtMs => (FrameDecoder.push p.decoder bytes).1.filterMap (sampleOf (saturatingAdd p.tMs dtMs))
  | .pushSample forceN tofMm motion dtMs => [{ forceN, tofMm, motion, tMs := saturatingAdd p.tMs dtMs }]
  | _ => []

/-- The pipeline after an operation. -/
def fedBy (p : SensePipeline) : EdgeOp → SensePipeline
  | .ingestUart bytes dtMs => (p.pushBytes bytes dtMs).2
  | .pushSample forceN tofMm motion dtMs => (p.pushSample forceN tofMm motion dtMs).2
  | _ => p

/-- The samples of operations one after another. -/
def samples : SensePipeline → List EdgeOp → List SenseSample
  | _, [] => []
  | p, o :: os => p.samplesIn o ++ (p.fedBy o).samples os

theorem pushFrames_filter : ∀ (frs : List Frame) (p : SensePipeline), (p.pushFrames frs).2.filter =
    (frs.filterMap (sampleOf p.tMs)).foldl (fun f s => (f.update s).2) p.filter
  | [], _ => rfl
  | fr :: frs, p => by
    unfold pushFrames
    split
    · rename_i hmsg
      rw [List.filterMap_cons_none (by simp [sampleOf, hmsg])]
      exact pushFrames_filter frs p
    · rename_i hmsg
      split
      · rename_i hpayload
        rw [List.filterMap_cons_none (by simp [sampleOf, hpayload])]
        exact pushFrames_filter frs p
      · rename_i s hpayload
        rw [List.filterMap_cons_some (by rw [sampleOf, if_neg hmsg, hpayload]; rfl)]
        exact pushFrames_filter frs _

theorem fedBy_filter (p : SensePipeline) (o : EdgeOp) :
    (p.fedBy o).filter = (p.samplesIn o).foldl (fun f s => (f.update s).2) p.filter := by
  cases o with
  | ingestUart bytes dtMs => exact pushFrames_filter _ _
  | _ => rfl

theorem foldl_fedBy_filter : ∀ (os : List EdgeOp) (p : SensePipeline), (os.foldl fedBy p).filter =
    (p.samples os).foldl (fun f s => (f.update s).2) p.filter
  | [], _ => rfl
  | o :: os, p => by
    rw [List.foldl_cons, foldl_fedBy_filter os, fedBy_filter, samples, List.foldl_append]

end SensePipeline

/-- The filter stands for the last run of samples that was held for its window. -/
theorem PresenceFilter.Follows.present {cfg : PresenceConfig} {gs : List (List SenseSample)} {f : PresenceFilter}
    (h : Follows cfg gs f) : f.present = Runs.lastOk cfg.raw cfg.confirmed false gs := by
  cases h with
  | new _ _ hpresent => exact hpresent
  | on _ _ hpresent _ => exact hpresent

/-- **What a new pipeline says of the dog** is the last run of its samples that was held for its window. -/
theorem SensePipeline.new_present (os : List EdgeOp) : (os.foldl fedBy {}).filter.present =
    PresenceConfig.lastConfirmed {} (SensePipeline.samples {} os) := by
  rw [foldl_fedBy_filter]
  exact (PresenceFilter.fed_follows {} (SensePipeline.samples {} os)).present

section

variable {F : Formats} (a : EdgeAgent) (o : EdgeOp)

/-- **What an operation leaves in the pipeline.** -/
theorem EdgeOp.perform_fed :
    (o.perform F a).Returns (fun b => b.cfg = a.cfg ∧ b.sense = a.sense.fedBy o) := by
  cases o with
  | ingestUart bytes dtMs => exact ⟨(a.ingestUart_kept bytes dtMs).1, (a.ingestUart_eq bytes dtMs).2.1⟩
  | pushSample forceN tofMm motion dtMs => exact ⟨rfl, rfl⟩
  | publishNow ts => exact (a.publishNow_agent ts).bind (fun r hr => hr ▸ ⟨rfl, rfl⟩)
  | fetchConfig => exact a.fetchConfig_kept.bind (fun _ hr => ⟨hr.1, hr.2.2⟩)
  | _ =>
    exact (EdgeOp.perform_moves a _ rfl).mono
      (fun b hb => ⟨(EdgeAgent.Moves.keeps hb).cfg, (EdgeAgent.Moves.keeps hb).sense⟩)

end

/-! ## The processes of a fleet -/

/-- Whatever the process is answered, it sends requests of `S` and comes to agents of `Q`. -/
def Process.Does (S : Request → Prop) (Q : EdgeAgent → Prop) : Process → Prop
  | idle a => Q a
  | asks r k | waits _ r k => (Prog.call r k : Edge EdgeAgent).All S ∧ (Prog.call r k : Edge EdgeAgent).Returns Q

namespace Process.Does

variable {S S' : Request → Prop} {Q Q' : EdgeAgent → Prop} {p : Process}

theorem of {e : Edge EdgeAgent} (hS : e.All S) (hQ : e.Returns Q) : (Process.of e).Does S Q := by
  cases e with
  | done a => exact hQ
  | call r k => exact ⟨hS, hQ⟩

theorem mono (h : p.Does S Q) (hS : ∀ r, S r → S' r) (hQ : ∀ a, Q a → Q' a) : p.Does S' Q' := by
  cases p with
  | idle a => exact hQ a h
  | asks r k => exact ⟨h.1.mono hS, h.2.mono hQ⟩
  | waits j r k => exact ⟨h.1.mono hS, h.2.mono hQ⟩

theorem sent (h : p.Does S Q) (j : Nat) : (p.sent j).Does S Q := by
  cases p <;> exact h

theorem lost (h : p.Does S Q) : p.lost.Does S Q := by
  cases p with
  | idle a => exact h
  | asks r k => exact of (h.1.2 _) (h.2 _)
  | waits j r k => exact of (h.1.2 _) (h.2 _)

theorem heard (h : p.Does S Q) (server : ApiPool) : (p.heard server).Does S Q := by
  cases p with
  | waits j r k =>
    simp only [Process.heard]
    cases server.result j with
    | none => exact h
    | some reply => exact of (h.1.2 _) (h.2 _)
  | _ => exact h

end Process.Does

/-! ## Where the reports come from -/

/-- The operations of terminal `n` once an action has been taken: a process that is idle starts one, and a new process
has none behind it. -/
def Fleet.opsAfter (f : Fleet) (n : Nat) (os : List EdgeOp) : FleetAction → List EdgeOp
  | .start m o => if m = n ∧ (f.agent n).isSome then os ++ [o] else os
  | .boot m => if m = n then [] else os
  | _ => os

/-- **All operations of terminal `n` since its process was last started**, in order. -/
def opsSince (st : AppState) (w : World) (cfgs : List EdgeConfig) (as : List FleetAction) (n : Nat) : List EdgeOp :=
  (as.foldl (fun s a => (s.1.step st a, s.1.opsAfter n s.2 a)) (Fleet.start w cfgs, [])).2

/-- The report is what some agent had to say when it was told to publish. -/
def PublishedIn (st : AppState) (w : World) (cfgs : List EdgeConfig) (as : List FleetAction) (rep : PresenceReport) :
    Prop :=
  ∃ earlier n ts a, earlier ++ [.start n (.publishNow ts)] <+: as ∧ (fleet st w cfgs earlier).agent n = some a ∧
    a.sense = (opsSince st w cfgs earlier n).foldl SensePipeline.fedBy {} ∧ rep = (a.nextReport ts).1

/-- A report that is sent was published. -/
def ReportsIn (st : AppState) (w : World) (cfgs : List EdgeConfig) (as : List FleetAction) (r : Request) : Prop :=
  ∀ h rep, r = .postPresence h rep → PublishedIn st w cfgs as rep

section

variable {st : AppState} {w : World} {cfgs : List EdgeConfig} {as : List FleetAction} {n : Nat}

theorem opsSince_snoc (as : List FleetAction) (a : FleetAction) (n : Nat) : opsSince st w cfgs (as ++ [a]) n =
    (fleet st w cfgs as).opsAfter n (opsSince st w cfgs as n) a := by
  have hfleet : ∀ as : List FleetAction,
      (as.foldl (fun s a => (s.1.step st a, s.1.opsAfter n s.2 a)) (Fleet.start w cfgs, [])).1 =
        fleet st w cfgs as := by
    intro as
    induction as using List.reverseRecOn with
    | nil => rfl
    | append_singleton as a ih => rw [List.foldl_append, fleet_snoc, ← ih]; rfl
  unfold opsSince
  rw [List.foldl_append, ← hfleet as]
  rfl

section

variable {f : Fleet} {a : FleetAction} {b : EdgeAgent} {o : EdgeOp} (os : List EdgeOp)

theorem Fleet.opsAfter_idle (h : f.agent n = some b) : f.opsAfter n os (.start n o) = os ++ [o] :=
  if_pos ⟨rfl, by rw [h]; rfl⟩

theorem Fleet.opsAfter_busy (h : f.agent n = none) : f.opsAfter n os (.start n o) = os :=
  if_neg (by simp [h])

theorem Fleet.opsAfter_other (hboot : a ≠ .boot n) (hstart : ¬ ∃ o, a = .start n o) : f.opsAfter n os a = os := by
  cases a with
  | start m o => exact if_neg (fun h => hstart ⟨o, by rw [h.1]⟩)
  | boot m => exact if_neg (fun h => hboot (by rw [h]))
  | _ => rfl

end

theorem PublishedIn.later {rep : PresenceReport} (h : PublishedIn st w cfgs as rep) (a : FleetAction) :
    PublishedIn st w cfgs (as ++ [a]) rep := by
  obtain ⟨earlier, m, ts, b, hle, hrest⟩ := h
  exact ⟨earlier, m, ts, b, hle.trans (List.prefix_append _ _), hrest⟩

theorem boot_terminal {f : Fleet} {cfg : EdgeConfig} {p : Process}
    (h : (f.step st (.boot n)).terminals[n]? = some (cfg, p)) : p = .idle (.new cfg) := by
  have h : (f.terminals.modify n (fun p => (p.1, .idle (.new p.1))))[n]? = some (cfg, p) := h
  rw [List.getElem?_modify] at h
  obtain ⟨⟨cfg', p'⟩, -, heq⟩ := Option.map_eq_some_iff.1 h
  rw [if_pos rfl] at heq
  cases heq
  rfl

theorem start_terminal {f : Fleet} {cfg : EdgeConfig} {p : Process} {o : EdgeOp}
    (h : (f.step st (.start n o)).terminals[n]? = some (cfg, p)) :
    ∃ p', f.terminals[n]? = some (cfg, p') ∧ p = p'.started st.formats o := by
  have h : (f.terminals.modify n (fun p => (p.1, p.2.started st.formats o)))[n]? = some (cfg, p) := h
  rw [List.getElem?_modify] at h
  obtain ⟨⟨cfg', p'⟩, hp', heq⟩ := Option.map_eq_some_iff.1 h
  rw [if_pos rfl] at heq
  cases heq
  exact ⟨p', hp', rfl⟩

/-- **Every process sends only what was published**, and its agent has the pipeline that the operations of its terminal
made. -/
theorem fleet_does (as : List FleetAction) : ∀ (n : Nat) (cfg : EdgeConfig) (p : Process),
    (fleet st w cfgs as).terminals[n]? = some (cfg, p) →
    p.Does (ReportsIn st w cfgs as) (fun a => a.sense = (opsSince st w cfgs as n).foldl SensePipeline.fedBy {}) := by
  induction as using List.reverseRecOn with
  | nil =>
    intro n cfg p hp
    have hp : (cfgs.map (fun cfg => (cfg, Process.idle (.new cfg))))[n]? = some (cfg, p) := hp
    rw [List.getElem?_map] at hp
    obtain ⟨cfg', -, heq⟩ := Option.map_eq_some_iff.1 hp
    obtain ⟨rfl, rfl⟩ := Prod.mk.inj heq
    rfl
  | append_singleton as a ih =>
    intro n cfg p' hp'
    rw [fleet_snoc] at hp'
    rw [opsSince_snoc]
    by_cases hboot : a = .boot n
    · subst hboot
      rw [boot_terminal hp']
      show EdgeAgent.sense (.new cfg) = (if n = n then [] else _).foldl SensePipeline.fedBy {}
      rw [if_pos rfl]
      rfl
    by_cases hstart : ∃ o, a = .start n o
    · obtain ⟨o, rfl⟩ := hstart
      obtain ⟨p, hp, rfl⟩ := start_terminal hp'
      have hold := (ih n cfg p hp).mono (fun r hr h rep e => (hr h rep e).later (.start n o)) (fun _ hb => hb)
      cases p with
      | idle b =>
        have hidle : (fleet st w cfgs as).agent n = some b := Fleet.agent_eq_some.2 ⟨cfg, hp⟩
        have hsense : b.sense = (opsSince st w cfgs as n).foldl SensePipeline.fedBy {} := hold
        rw [Fleet.opsAfter_idle _ hidle]
        refine .of ((EdgeOp.perform_posts b o).mono (fun r hr hd rep e => ?_))
          ((EdgeOp.perform_fed b o).mono (fun b' hb' => ?_))
        · obtain ⟨ts, rfl, hrep⟩ := hr hd rep e
          exact ⟨as, n, ts, b, List.prefix_refl _, hidle, hsense, hrep⟩
        · rw [hb'.2, hsense, List.foldl_append]
          rfl
      | _ =>
        have hbusy : (fleet st w cfgs as).agent n = none := by
          unfold Fleet.agent
          rw [hp]
        rw [Fleet.opsAfter_busy _ hbusy]
        exact hold
    obtain ⟨p, hp, hturn⟩ := step_terminal st _ a hp'
    have hold := (ih n cfg p hp).mono (fun r hr h rep e => (hr h rep e).later a) (fun _ hb => hb)
    rw [Fleet.opsAfter_other _ hboot hstart]
    rcases hturn with rfl | ⟨o, rfl, -⟩ | ⟨-, rfl⟩ | ⟨-, rfl⟩ | ⟨-, rfl⟩ | ⟨rfl, -⟩
    · exact hold
    · exact absurd ⟨o, rfl⟩ hstart
    · exact hold.sent _
    · exact hold.lost
    · exact hold.heard _
    · exact absurd rfl hboot

/-- **A report that came in** was sent by another client, or was published. -/
theorem reports_come (as : List FleetAction) : ∀ h rep, Request.postPresence h rep ∈ (fleet st w cfgs as).requests →
    .arrive (.postPresence h rep) ∈ as ∨ PublishedIn st w cfgs as rep := by
  induction as using List.reverseRecOn with
  | nil => exact fun h rep hmem => absurd hmem List.not_mem_nil
  | append_singleton as a ih =>
    intro h rep hmem
    have hold : Request.postPresence h rep ∈ (fleet st w cfgs as).requests →
        .arrive (.postPresence h rep) ∈ as ++ [a] ∨ PublishedIn st w cfgs (as ++ [a]) rep := by
      intro hmem
      exact (ih h rep hmem).imp (List.mem_append_left _) (fun hpub => hpub.later a)
    rw [fleet_snoc] at hmem
    cases a with
    | arrive r =>
      rcases List.mem_append.1 hmem with hmem | hmem
      · exact hold hmem
      · rw [List.mem_singleton.1 hmem]
        exact .inl (List.mem_append_right _ (List.mem_singleton_self _))
    | send n =>
      cases hr : (fleet st w cfgs as).request n with
      | none =>
        rw [show (fleet st w cfgs as).step st (.send n) = fleet st w cfgs as by simp only [Fleet.step, hr]] at hmem
        exact hold hmem
      | some r =>
        rw [show (fleet st w cfgs as).step st (.send n) = ((fleet st w cfgs as).arrive st r).turn n
          (.sent (fleet st w cfgs as).requests.length) by simp only [Fleet.step, hr]] at hmem
        rcases List.mem_append.1 hmem with hmem | hmem
        · exact hold hmem
        · obtain rfl := List.mem_singleton.1 hmem
          unfold Fleet.request at hr
          split at hr
          · rename_i cfg r k hn
            obtain rfl := Option.some.inj hr
            exact .inr (((fleet_does as n cfg _ hn).1.1 h rep rfl).later _)
          · cases hr
    | _ => exact hold hmem

end

/-! ## What the presence store goes by -/

/-- Only a verified report goes into the presence store. -/
def UpsertsOwn (st : AppState) (r : Request) (c : Call) : Prop :=
  ∀ rep, c = .presenceUpsert rep →
    ∃ h, r = .postPresence h rep ∧ verifyDevice st h rep.terminalId rep.dogId = .ok ()

theorem handle_upserts (st : AppState) (r : Request) : (handle st r).All (UpsertsOwn st r) := by
  cases hpost : r.isPost with
  | false =>
    refine (handle_makes st r).mono (fun c hc rep e => ?_)
    subst e
    have hc : r.isPost = true := hc
    rw [hpost] at hc
    cases hc
  | true =>
    cases r with
    | postPresence h rep =>
      show (postPresence st h rep).All _
      unfold postPresence
      cases hv : verifyDevice st h rep.terminalId rep.dogId with
      | error s => trivial
      | ok u =>
        have hupsert : UpsertsOwn st (.postPresence h rep) (.presenceUpsert rep) :=
          fun rep' e => ⟨h, by rw [Call.presenceUpsert.inj e], Call.presenceUpsert.inj e ▸ hv⟩
        have hbind : UpsertsOwn st (.postPresence h rep) (.bindTerminal rep.terminalId rep.dogId) :=
          fun rep' e => by cases e
        have hsql : UpsertsOwn st (.postPresence h rep) (.sql (.savePresence rep)) := fun rep' e => by cases e
        refine ⟨hbind, fun _ => ?_⟩
        cases st.pool with
        | false => exact ⟨hupsert, fun _ => trivial⟩
        | true => exact ⟨hsql, fun _ => ⟨hupsert, fun _ => trivial⟩⟩
    | _ => cases hpost

/-- Request `j` is the report `rep`, under the header `hd`, and device-api has entered it into the presence store. -/
def EnteredBy (reqs : List Request) (log : List ApiStep) (j : Nat) (hd : HeaderMap) (rep : PresenceReport) : Prop :=
  reqs[j]? = some (.postPresence hd rep) ∧ ∃ t, (⟨j, t, .presenceUpsert rep, ()⟩ : ApiStep) ∈ log

/-- The entry of a dog is that of a report of its own that was entered, with its terminal's credentials. -/
def HeardOf (st : AppState) (reqs : List Request) (p : ApiPool) : Prop :=
  ∀ d e, p.state.data.presence.inner.lookup d = some e → ∃ j hd rep, EnteredBy reqs p.log j hd rep ∧
    verifyDevice st hd rep.terminalId rep.dogId = .ok () ∧ rep.dogId = d ∧ e = PresenceStore.entryOf rep

theorem heard_run {st : AppState} {w : World} (hw : w.data = {}) (reqs : List Request)
    (sched : List (Nat × DateTime)) : HeardOf st reqs (reached st w reqs sched) := by
  have hfollows : (Pool.start w (reqs.map (handle st)) : ApiPool).Follows
      (fun i _ c => ∃ r, reqs[i]? = some r ∧ UpsertsOwn st r c) (fun _ _ _ => True) :=
    Pool.follows_start (fun i r hr => (handle_upserts st r).along_calls
      (fun _ c hc => ⟨r, hr, hc⟩) (fun _ _ => trivial))
  have h0 : HeardOf st reqs (Pool.start w (reqs.map (handle st)) : ApiPool) := by
    intro d e h
    rw [show (Pool.start w _ : ApiPool).state = w from rfl, hw] at h
    cases h
  have hany : (Pool.start w (reqs.map (handle st)) : ApiPool).Meets (exec st) (fun _ _ => True) sched :=
    Pool.meets_iff.2 (fun _ _ _ => trivial)
  refine (Pool.run_inv (J := HeardOf st reqs) (fun p i t c k hJ _ _ hq _ => ?_) sched _ hfollows h0 hany).2
  obtain ⟨r, hr, hown⟩ := hq
  -- what was heard before
  have hold : ∀ {d e}, p.state.data.presence.inner.lookup d = some e → ∃ j hd rep,
      EnteredBy reqs (p.log ++ [⟨i, t, c, (exec st t c p.state).1⟩]) j hd rep ∧
        verifyDevice st hd rep.terminalId rep.dogId = .ok () ∧ rep.dogId = d ∧ e = PresenceStore.entryOf rep := by
    intro d e h
    obtain ⟨j, hd, rep, ⟨hj, t', hmem⟩, hrest⟩ := hJ d e h
    exact ⟨j, hd, rep, ⟨hj, t', List.mem_append_left _ hmem⟩, hrest⟩
  intro d e h
  rw [show (⟨(exec st t c p.state).2, p.threads.set i (k (exec st t c p.state).1),
    p.log ++ [⟨i, t, c, (exec st t c p.state).1⟩]⟩ : ApiPool).state = (exec st t c p.state).2 from rfl,
    exec_presence] at h
  cases c with
  | presenceUpsert rep =>
    obtain ⟨hd, rfl, hv⟩ := hown rep rfl
    rw [PresenceStore.lookup_upsert] at h
    split at h
    · rename_i hdog
      subst hdog
      have hnew : EnteredBy reqs (p.log ++ [⟨i, t, .presenceUpsert rep, (exec st t (.presenceUpsert rep) p.state).1⟩]) i
          hd rep := ⟨hr, t, List.mem_append_right _ (List.mem_singleton_self _)⟩
      have h := Option.some.inj h
      split at h
      · rename_i e' he'
        split at h
        · exact hold (h ▸ he')
        · exact ⟨i, hd, rep, hnew, hv, rfl, h.symm⟩
      · exact ⟨i, hd, rep, hnew, hv, rfl, h.symm⟩
    · exact hold h
  | _ => exact hold h

/-- **A dog that device-api shows present was sensed on its mat.**  In every run of a fleet, a dog is present at `now`
only by a report of its own, not older than the TTL and with its terminal's credentials, that says so and was entered
into the presence store; and another client sent that report, or an agent of the fleet published it, and of all the
readings that agent's terminal had had since it was booted the last run held for its window was of a dog on the mat. -/
theorem presence_sensed (st : AppState) (w : World) (hw : w.data = {}) (cfgs : List EdgeConfig) (as : List FleetAction)
    (d : DogId) (now : DateTime) (h : (fleet st w cfgs as).server.state.data.presence.isPresent d now = true) :
    ∃ j hd rep, EnteredBy (fleet st w cfgs as).requests (fleet st w cfgs as).server.log j hd rep ∧
      verifyDevice st hd rep.terminalId d = .ok () ∧ rep.dogId = d ∧ rep.present = true ∧
      now.since rep.ts < 10001000000 ∧
      (.arrive (.postPresence hd rep) ∈ as ∨
        ∃ earlier n ts a, earlier ++ [.start n (.publishNow ts)] <+: as ∧
          (fleet st w cfgs earlier).agent n = some a ∧ rep = (a.nextReport ts).1 ∧
          a.sense = (opsSince st w cfgs earlier n).foldl SensePipeline.fedBy {} ∧
          PresenceConfig.lastConfirmed {} (SensePipeline.samples {} (opsSince st w cfgs earlier n)) = true) := by
  obtain ⟨e, hlookup, hpresent, hage⟩ := (PresenceStore.isPresent_iff _ d now).1 h
  have hserved : (fleet st w cfgs as).server = _ := served as
  rw [hserved] at hlookup
  obtain ⟨j, hd, rep, hentered, hv, rfl, rfl⟩ := heard_run hw _ _ d e hlookup
  rw [← hserved] at hentered
  refine ⟨j, hd, rep, hentered, hv, rfl, hpresent, hage, ?_⟩
  rcases reports_come as hd rep (List.mem_of_getElem? hentered.1) with
    harrived | ⟨earlier, n, ts, a, hle, ha, hfed, rfl⟩
  · exact .inl harrived
  · refine .inr ⟨earlier, n, ts, a, hle, ha, rfl, hfed, ?_⟩
    have hsays : a.sense.filter.present = true := hpresent
    rw [hfed, SensePipeline.new_present] at hsays
    exact hsays

/-- The dog is on its mat, its terminal is booted anew and senses it again, and publishes that. -/
def publishedOnMat : List FleetAction :=
  [.start 0 (.ingestUart onMat 1000), .boot 0, .start 0 (.ingestUart onMat 1000), .start 0 (.ingestUart onMat 1000),
    .start 0 (.publishNow noon), .send 0] ++ handling 0

theorem presence_sensed_onMat : ∃ earlier n a, earlier <+: publishedOnMat ∧
    (fleet bench fresh [terminal1] earlier).agent n = some a ∧
    a.sense = (opsSince bench fresh [terminal1] earlier n).foldl SensePipeline.fedBy {} ∧
    PresenceConfig.lastConfirmed {} (SensePipeline.samples {} (opsSince bench fresh [terminal1] earlier n)) = true := by
  obtain ⟨j, hd, rep, -, -, -, -, -, harrived | ⟨earlier, n, ts, a, hle, ha, -, hfed, hconfirmed⟩⟩ :=
    presence_sensed bench fresh rfl [terminal1] publishedOnMat ⟨1⟩ noon (by decide +kernel)
  · simp [publishedOnMat, handling] at harrived
  · exact ⟨earlier, n, a, (List.prefix_append _ _).trans hle, ha, hfed, hconfirmed⟩

end CanisLink
