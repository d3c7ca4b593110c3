import CanisLink.EdgeLink
import CanisLink.EdgeSteps
/-!
# Numbering — the numbers of a dog's reports, from process to process

`next_report` numbers the reports of a process from 1, and the process that comes after it begins again.  The presence
store goes by the greatest number it has had.  So an acknowledged report takes effect unless a report of the dog that
device-api handled before, perhaps an earlier process's, has a number above this one's place in its process's life.
-/
namespace CanisLink

open Interleave (Prog)

/-! ## The numbers -/

/-- How far the numbering has come: how many reports the agent's process has made, and the numbers of the dog's reports
that device-api has handled, whoever sent them. -/
structure Numbering where
  made : Nat
  handled : List UInt64

/-- Whether the request comes in, whatever becomes of its answer. -/
def Hop.comesIn : Hop → Bool
  | lost => false
  | handled .. => true

/-- The number of a request that is a verified report of the dog. -/
def numberOf (st : AppState) (d : DogId) (a : Arrival) : Option UInt64 :=
  ((reportOf st a).filter (fun r => decide (r.dogId = d))).map (·.seq)

namespace Numbering

/-- The next report's place in the life of its process. -/
def next (n : Numbering) : UInt64 := UInt64.ofNat (n.made + 1)

/-- None of the dog's reports that were handled has a greater number than the next. -/
def InTurn (n : Numbering) : Prop := ∀ m ∈ n.handled, m ≤ n.next

instance (n : Numbering) : Decidable n.InTurn := List.decidableBAll (· ≤ n.next) n.handled

variable (st : AppState) (cfg : EdgeConfig)

/-- The agent's credentials are verified. -/
def trusted : Bool := (verifyDevice st ((EdgeAgent.new cfg).authHeader st.formats) cfg.terminalId cfg.dogId).isOk

def step (n : Numbering) : Event → Numbering
  | .boot => { n with made := 0 }
  | .op (.publishNow _) hops =>
    { made := n.made + 1, handled := if (hops 0).comesIn && trusted st cfg then n.next :: n.handled else n.handled }
  | .op .. => n
  | .serve a => { n with handled := (numberOf st cfg.dogId a).toList ++ n.handled }

/-- The numbering after a run that starts with a new agent; the entry of the dog at the start counts as handled. -/
def run (s : Server) (events : List Event) : Numbering :=
  events.foldl (step st cfg)
    { made := 0, handled := ((s.world.data.presence.inner.lookup cfg.dogId).map (·.seq)).toList }

end Numbering

/-! ## The entry has the greatest number -/

/-- The entry is that of the greatest number. -/
def Highest (handled : List UInt64) : Option PresenceEntry → Prop
  | none => handled = []
  | some e => e.seq ∈ handled ∧ ∀ m ∈ handled, m ≤ e.seq

theorem Highest.upsert {handled : List UInt64} {s : PresenceStore} {r : PresenceReport}
    (h : Highest handled (s.inner.lookup r.dogId)) :
    Highest (r.seq :: handled) ((s.upsert r).inner.lookup r.dogId) := by
  rw [PresenceStore.lookup_upsert, if_pos rfl]
  cases hl : s.inner.lookup r.dogId with
  | none =>
    rw [hl] at h
    obtain rfl : handled = [] := h
    refine ⟨List.mem_cons_self, fun m hm => ?_⟩
    obtain rfl := List.mem_singleton.1 hm
    exact UInt64.le_refl _
  | some e =>
    rw [hl] at h
    obtain ⟨hmem, hmax⟩ := h
    show Highest _ (some (if r.seq < e.seq then e else PresenceStore.entryOf r))
    split
    · rename_i hlt
      exact ⟨List.mem_cons_of_mem _ hmem, List.forall_mem_cons.2 ⟨UInt64.le_of_lt hlt, hmax⟩⟩
    · rename_i hlt
      have hle : e.seq ≤ r.seq := UInt64.not_lt.1 hlt
      exact ⟨List.mem_cons_self, List.forall_mem_cons.2
        ⟨UInt64.le_refl _, fun m hm => UInt64.le_trans (hmax m hm) hle⟩⟩

section

variable {st : AppState} {cfg : EdgeConfig} {s : Server}

variable (st) in
theorem Highest.serve {d : DogId} {handled : List UInt64} (h : Highest handled (s.entry d)) (a : Arrival) :
    Highest ((numberOf st d a).toList ++ handled) ((s.serve st a).entry d) := by
  unfold Server.entry numberOf at *
  rw [serve_presence]
  cases reportOf st a with
  | none => exact h
  | some r =>
    show Highest _ ((s.world.data.presence.upsert r).inner.lookup d)
    by_cases hd : r.dogId = d
    · subst hd
      rw [Option.filter_some_pos (p := fun r' : PresenceReport => decide (r'.dogId = r.dogId)) (decide_eq_true rfl)]
      exact h.upsert
    · rw [Option.filter_some_neg (by simpa using hd), PresenceStore.lookup_upsert, if_neg (Ne.symm hd)]
      exact h

end

/-! ## The deployment and its numbering -/

/-- The agent has counted the reports of its process, and the entry is that of the greatest number. -/
structure Numbered (cfg : EdgeConfig) (n : Numbering) (s : Deployment) : Prop where
  configured : s.agent.cfg = cfg
  seq : s.agent.seq = UInt64.ofNat n.made
  highest : Highest n.handled (s.server.entry cfg.dogId)

section

variable {st : AppState} {cfg : EdgeConfig} {n : Numbering} {s : Deployment}

/-- The report that `publish_now` sends has the next number. -/
theorem Numbered.next_seq (h : Numbered cfg n s) (ts : DateTime) : (s.agent.nextReport ts).1.seq = n.next := by
  show s.agent.seq + 1 = _
  rw [h.seq]
  exact (UInt64.ofNat_add n.made 1).symm

/-- What device-api makes of the report that `publish_now` sends, if it comes in. -/
theorem Numbered.numberOf_next (h : Numbered cfg n s) (ts : DateTime) (clock : Nat → DateTime) :
    numberOf st cfg.dogId ⟨.postPresence (s.agent.authHeader st.formats) (s.agent.nextReport ts).1, clock⟩ =
      if Numbering.trusted st cfg then some n.next else none := by
  have hverify : verifyDevice st (s.agent.authHeader st.formats) (s.agent.nextReport ts).1.terminalId
      (s.agent.nextReport ts).1.dogId =
        verifyDevice st ((EdgeAgent.new cfg).authHeader st.formats) cfg.terminalId cfg.dogId := by
    rw [← h.configured]
    rfl
  have hdog : (s.agent.nextReport ts).1.dogId = cfg.dogId := congrArg EdgeConfig.dogId h.configured
  unfold numberOf reportOf Numbering.trusted
  dsimp only
  rw [hverify]
  split
  · rw [Option.filter_some_pos (p := fun r : PresenceReport => decide (r.dogId = cfg.dogId)) (decide_eq_true hdog),
      Option.map_some, h.next_seq]
  · rfl

/-- An operation that is no report leaves the presence store alone. -/
theorem op_presence (s : Deployment) (o : EdgeOp) (ho : o.isReport = false) (hops : Nat → Hop) :
    (s.step st cfg (.op o hops)).server.world.data.presence = s.server.world.data.presence := by
  have hposts : (o.perform st.formats s.agent).All (·.isPost = false) := by
    refine (EdgeOp.perform_posts s.agent o).mono (fun r hr => ?_)
    cases r with
    | postPresence h rep =>
      obtain ⟨ts, rfl, -⟩ := hr h rep rfl
      cases ho
    | _ => rfl
  have hquiet : ∀ r : Request, r.isPost = false → ∀ (hop : Hop) (s' : Server),
      s'.world.data.presence = s.server.world.data.presence →
      (Hop.exec st hop r s').2.world.data.presence = s.server.world.data.presence := fun r hr hop s' hs => by
    cases hop with
    | lost => exact hs
    | handled clock heard => exact (serve_presence_of_not_post s' hr).trans hs
  exact Prog.All.eval (Hop.exec st) hquiet hposts hops s.server rfl

/-- What `publish_now` leaves of device-api. -/
theorem publish_server (s : Deployment) (ts : DateTime) (hops : Nat → Hop) :
    (s.step st cfg (.op (.publishNow ts) hops)).server =
      (Hop.exec st (hops 0) (.postPresence (s.agent.authHeader st.formats) (s.agent.nextReport ts).1) s.server).2 := by
  show (((EdgeOp.publishNow ts).perform st.formats s.agent).eval (Hop.exec st) hops s.server).2 = _
  unfold EdgeOp.perform EdgeAgent.publishNow
  simp only [http, Prog.op_bind, Prog.pure_eq, Prog.call_bind]
  rw [Prog.eval_call]
  cases (Hop.exec st (hops 0) _ s.server).1 with
  | failed => rfl
  | answered status body =>
    show (Prog.eval _ ((if _ then _ else _) >>= _) _ _).2 = _
    split <;> rfl

theorem Numbered.step (h : Numbered cfg n s) (e : Event) : Numbered cfg (n.step st cfg e) (s.step st cfg e) := by
  cases e with
  | boot => exact ⟨rfl, rfl, h.highest⟩
  | serve a => exact ⟨h.configured, h.seq, h.highest.serve st a⟩
  | op o hops =>
    obtain ⟨hcfg, hseq⟩ := (EdgeOp.perform_seq s.agent o).eval (Hop.exec st) hops s.server
    cases hreport : o.isReport with
    | false =>
      have hn : n.step st cfg (.op o hops) = n := by cases o <;> first | rfl | cases hreport
      rw [hn]
      rw [hreport] at hseq
      refine ⟨hcfg.trans h.configured, hseq.trans h.seq, ?_⟩
      unfold Server.entry
      rw [op_presence s o hreport hops]
      exact h.highest
    | true =>
      cases o with
      | publishNow ts =>
        refine ⟨hcfg.trans h.configured, hseq.trans ?_, ?_⟩
        · show s.agent.seq + 1 = _
          exact h.next_seq ts
        · rw [publish_server]
          show Highest (if (hops 0).comesIn && Numbering.trusted st cfg then n.next :: n.handled else n.handled) _
          cases hops 0 with
          | lost => exact h.highest
          | handled clock heard =>
            have hserved := h.highest.serve st
              ⟨.postPresence (s.agent.authHeader st.formats) (s.agent.nextReport ts).1, clock⟩
            rw [h.numberOf_next] at hserved
            show Highest (if Numbering.trusted st cfg then n.next :: n.handled else n.handled)
              ((s.server.serve st ⟨.postPresence _ _, clock⟩).entry cfg.dogId)
            split <;> rename_i htrusted
            · rw [if_pos htrusted] at hserved
              exact hserved
            · rw [if_neg htrusted] at hserved
              exact hserved
      | _ => cases hreport

/-- **Over every run the deployment is as far as its numbering says.** -/
theorem numbered_run (st : AppState) (cfg : EdgeConfig) (s : Server) (events : List Event) :
    Numbered cfg (Numbering.run st cfg s events) (Deployment.run st cfg s events) := by
  induction events using List.reverseRecOn with
  | nil =>
    refine ⟨rfl, rfl, ?_⟩
    show Highest ((s.entry cfg.dogId).map (·.seq)).toList (s.entry cfg.dogId)
    cases s.entry cfg.dogId with
    | none => rfl
    | some e => exact ⟨List.mem_singleton_self _, fun m hm => by rw [List.mem_singleton.1 hm]; exact UInt64.le_refl _⟩
  | append_singleton events e ih =>
    unfold Numbering.run Deployment.run
    rw [List.foldl_append, List.foldl_append]
    exact ih.step e

end

namespace Deployment

variable (st : AppState) (cfg : EdgeConfig) (s : Server) (events : List Event)

/-- A `publish_now` of the run, after the events `before`, that comes to `Ok`. -/
def Acknowledged (before : List Event) (ts : DateTime) (hops : Nat → Hop) : Prop :=
  before ++ [.op (.publishNow ts) hops] <+: events ∧ ((run st cfg s before).publish st ts hops).1 = .ok ()

/-- After that `publish_now`, the dog's entry carries the present flag and the timestamp of the report. -/
def TakesEffect (before : List Event) (ts : DateTime) (hops : Nat → Hop) : Prop :=
  ∃ e, ((run st cfg s before).publish st ts hops).2.entry cfg.dogId = some e ∧
    e.present = ((run st cfg s before).agent.nextReport ts).1.present ∧ e.lastSeen = ts

end Deployment

section

variable {st : AppState} {cfg : EdgeConfig} {s : Server} {events before : List Event} {ts : DateTime} {hops : Nat → Hop}

open Deployment (Acknowledged TakesEffect)

/-- An acknowledged report goes to the presence store. -/
theorem Deployment.Acknowledged.upserts (h : Acknowledged st cfg s events before ts hops) :
    ((Deployment.run st cfg s before).publish st ts hops).2.entry cfg.dogId =
      some (match (Deployment.run st cfg s before).server.entry cfg.dogId with
        | some e => if (Numbering.run st cfg s before).next < e.seq then e
          else PresenceStore.entryOf ((Deployment.run st cfg s before).agent.nextReport ts).1
        | none => PresenceStore.entryOf ((Deployment.run st cfg s before).agent.nextReport ts).1) := by
  have hn := numbered_run st cfg s before
  obtain ⟨a, ha, hserver⟩ := publish_ok h.2
  have hdog : ((Deployment.run st cfg s before).agent.nextReport ts).1.dogId = cfg.dogId :=
    congrArg EdgeConfig.dogId hn.configured
  rw [hserver]
  unfold Server.entry
  rw [serve_presence, ha, ← hn.next_seq ts]
  exact (PresenceStore.lookup_upsert ..).trans (if_pos hdog.symm)

theorem Deployment.Acknowledged.takesEffect (h : Acknowledged st cfg s events before ts hops)
    (hturn : (Numbering.run st cfg s before).InTurn) : TakesEffect st cfg s before ts hops := by
  have hhighest := (numbered_run st cfg s before).highest
  unfold TakesEffect
  rw [h.upserts]
  cases he : (Deployment.run st cfg s before).server.entry cfg.dogId with
  | none => exact ⟨_, rfl, rfl, rfl⟩
  | some e =>
    rw [he] at hhighest
    refine ⟨_, rfl, ?_⟩
    dsimp only
    rw [if_neg (UInt64.not_lt.2 (hturn e.seq hhighest.1))]
    exact ⟨rfl, rfl⟩

theorem Deployment.Acknowledged.dropped (h : Acknowledged st cfg s events before ts hops)
    (hturn : ¬ (Numbering.run st cfg s before).InTurn) :
    ∃ e, (Deployment.run st cfg s before).server.entry cfg.dogId = some e ∧
      (Numbering.run st cfg s before).next < e.seq ∧
      ((Deployment.run st cfg s before).publish st ts hops).2.entry cfg.dogId = some e := by
  have hhighest := (numbered_run st cfg s before).highest
  obtain ⟨m, hturn⟩ := not_forall.1 hturn
  obtain ⟨hm, hgt⟩ := Classical.not_imp.1 hturn
  rw [h.upserts]
  cases he : (Deployment.run st cfg s before).server.entry cfg.dogId with
  | none =>
    rw [he] at hhighest
    have hnone : (Numbering.run st cfg s before).handled = [] := hhighest
    rw [hnone] at hm
    cases hm
  | some e =>
    rw [he] at hhighest
    have hgreater : (Numbering.run st cfg s before).next < e.seq :=
      UInt64.lt_of_lt_of_le (UInt64.not_le.1 hgt) (hhighest.2 m hm)
    refine ⟨e, rfl, hgreater, ?_⟩
    dsimp only
    rw [if_pos hgreater]

end

open Deployment in
/-- **While every acknowledged report is in turn, each takes effect**: over every succession of processes of the dog's
agent, with whatever else device-api handles in between.  One that is not in turn leaves the entry, which has a greater
number, as it was. -/
theorem reports_in_force (st : AppState) (cfg : EdgeConfig) (s : Server) (events : List Event) :
    ((∀ before ts hops, Acknowledged st cfg s events before ts hops → (Numbering.run st cfg s before).InTurn) →
      ∀ before ts hops, Acknowledged st cfg s events before ts hops → TakesEffect st cfg s before ts hops) ∧
    ∀ before ts hops, Acknowledged st cfg s events before ts hops → ¬ (Numbering.run st cfg s before).InTurn →
      ∃ e, (Deployment.run st cfg s before).server.entry cfg.dogId = some e ∧
        (Numbering.run st cfg s before).next < e.seq ∧
        ((Deployment.run st cfg s before).publish st ts hops).2.entry cfg.dogId = some e :=
  ⟨fun h before ts hops hok => hok.takesEffect (h before ts hops hok), fun _ _ _ hok => hok.dropped⟩

/-- The agent reports that its dog is not there, is started anew and reports again. -/
def restarted : List Event :=
  [.op (.publishNow noon) (hopAt noon), .boot, .op (.publishNow (epoch 43204)) (hopAt (epoch 43204))]

theorem reports_in_force_restarted :
    Deployment.TakesEffect bench terminal1 ⟨fresh, noon⟩ (restarted.take 2) (epoch 43204) (hopAt (epoch 43204)) := by
  refine (reports_in_force bench terminal1 ⟨fresh, noon⟩ restarted).1 (fun before ts hops hok => ?_) _ _ _
    ⟨List.prefix_refl _, by decide +kernel⟩
  obtain ⟨⟨after, happend⟩, -⟩ := hok
  rcases before with _ | ⟨e, _ | ⟨e', _ | ⟨e'', rest⟩⟩⟩
  · decide +kernel
  · simp [restarted] at happend
  · simp only [restarted, List.cons_append, List.nil_append, List.cons.injEq] at happend
    obtain ⟨rfl, rfl, -⟩ := happend
    decide +kernel
  · simp [restarted] at happend

/-- **A report is acknowledged and dropped**: the agent has reported twice and is started anew, and its next report has
the number of its first. -/
theorem report_dropped : ¬ ∀ (st : AppState) (cfg : EdgeConfig) (s : Server) (events before : List Event)
    (ts : DateTime) (hops : Nat → Hop), Deployment.Acknowledged st cfg s events before ts hops →
    Deployment.TakesEffect st cfg s before ts hops := by
  intro h
  obtain ⟨e, he, -, hseen⟩ := h bench terminal1 ⟨fresh, noon⟩ _
    [.op (.publishNow noon) (hopAt noon), .op (.publishNow (epoch 43202)) (hopAt (epoch 43202)), .boot] (epoch 43204)
    (hopAt (epoch 43204)) ⟨List.prefix_refl _, by decide +kernel⟩
  have hmap := congrArg (Option.map (·.lastSeen)) he
  rw [Option.map_some, hseen] at hmap
  revert hmap
  decide +kernel

end CanisLink
