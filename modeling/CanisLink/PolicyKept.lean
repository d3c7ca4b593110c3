import CanisLink.Keyed
import CanisLink.Restart
import CanisLink.Steward
/-!
# PolicyKept — a restart gives the policies back

The row of a dog's policy is written by the steward's requests, with the policy in force, and by an enrolment, with the
default whatever is in force: in memory an enrolment keeps the policy there is.  So a restart gives the policies back
while every enrolment is of a dog whose row, if any, is the default.
-/
namespace CanisLink

open Interleave (Prog)
open Api

/-! ## The policies of the table -/

section

variable {F : Formats}

theorem policyOfRow_policyRow (hF : F.LawfulIds) (p : DogPolicy) : policyOfRow F (policyRow F p) = some p := by
  have hflag : ∀ b : Bool, flag b = 0 ↔ b = false := fun b => by cases b <;> decide
  simp only [policyOfRow, policyRow, hF.parse_uuid]
  simp [hflag]

/-- A policy row, read under its dog. -/
def policyEntry (F : Formats) (r : PolicyRow) : Option (DogId × DogPolicy) :=
  (policyOfRow F r).map (fun p => (p.dogId, p))

/-- The policy the table has for a dog: that of its last row, or the default. -/
def Db.policy (F : Formats) (db : Db) (d : DogId) : DogPolicy :=
  (Keyed.last (policyEntry F) d db.dogPolicy).getD (.defaultFor d)

theorem policyEntry_policyRow (hF : F.LawfulIds) (p : DogPolicy) :
    policyEntry F (policyRow F p) = some (p.dogId, p) := by
  unfold policyEntry
  rw [policyOfRow_policyRow hF]
  rfl

theorem policy_dogId (db : Db) (d : DogId) : (db.policy F d).dogId = d := by
  unfold Db.policy
  cases h : Keyed.last (policyEntry F) d db.dogPolicy with
  | none => rfl
  | some p =>
    obtain ⟨r, -, hread⟩ := Keyed.exists_of_last h
    obtain ⟨p', -, he⟩ := Option.map_eq_some_iff.1 hread
    cases he
    rfl

theorem policyEntry_of_dogId (hF : F.LawfulIds) {r : PolicyRow} {d : DogId} (h : r.dogId = F.uuid d.uuid) {d' : DogId}
    (hd : d ≠ d') : Keyed.entry (policyEntry F) d' r = none := by
  have hread : policyEntry F r = (policyOfRow F r).map (fun p => (d, p)) := by
    unfold policyEntry policyOfRow
    rw [h, hF.parse_uuid]
    rfl
  cases hp : policyOfRow F r with
  | none => exact Keyed.entry_none (by rw [hread, hp]; rfl)
  | some p => rw [Keyed.entry_some (by rw [hread, hp]; rfl), if_neg hd]

/-- **An upserted policy is the one the table has for its dog.** -/
theorem policy_replaceRow (hF : F.LawfulIds) {db db' : Db} {p : DogPolicy}
    (h : db'.dogPolicy = replaceRow (·.dogId) (policyRow F p) db.dogPolicy) (d : DogId) :
    db'.policy F d = if d = p.dogId then p else db.policy F d := by
  unfold Db.policy
  rw [h]
  show (Keyed.last (policyEntry F) d (db.dogPolicy.filter _ ++ [policyRow F p])).getD _ = _
  have hentry := Keyed.entry_some (k := d) (policyEntry_policyRow hF p)
  rw [Keyed.last_upsert (fun r _ hr he => ?_), hentry]
  · by_cases hd : d = p.dogId
    · rw [if_pos hd.symm, if_pos hd]; rfl
    · rw [if_neg (Ne.symm hd), if_neg hd]; rfl
  · rw [hentry] at he
    refine policyEntry_of_dogId hF hr (fun hd => ?_)
    rw [if_pos hd] at he
    cases he

theorem run_savePolicy {db : Db} (ht : Table.dogPolicy ∈ db.tables) (p : DogPolicy) :
    ((Stmt.savePolicy p).run F db).2.dogPolicy = replaceRow (·.dogId) (policyRow F p) db.dogPolicy := by
  have hs : (Stmt.savePolicy p).succeeds F db = true := by simp [Stmt.succeeds, Stmt.table, ht]
  rw [Stmt.run, if_pos hs]
  rfl

/-- No other statement changes the policies of the table. -/
theorem run_dogPolicy {s : Stmt} (hs : ∀ p, s ≠ .savePolicy p) (db : Db) : (s.run F db).2.dogPolicy = db.dogPolicy := by
  refine s.run_keeps (·.dogPolicy) (fun db => ?_) db
  cases s with
  | insertDog d => simp only [Stmt.effect]; split <;> rfl
  | savePolicy p => exact absurd rfl (hs p)
  | _ => rfl

/-- **`load_into` gives every dog the policy the table has for it.** -/
theorem load_policy {now : DateTime} {db : Db} {data : AppData} (h : loadInto F now db {} = some data) (d : DogId) :
    data.policies.current d = db.policy F d := by
  obtain ⟨⟨policies, h₁, h₂⟩, -⟩ := loadInto_loops h
  have hrows : policies.byDog.lookup d = (Keyed.last (policyEntry F) d db.dogPolicy).or none := by
    refine Keyed.view_foldlM (fun s : PolicyStore => s.byDog.lookup d) (fun s r s' hs => ?_) h₁
    obtain ⟨p, hp, hs⟩ := Option.bind_eq_some_iff.1 hs
    cases hs
    rw [Keyed.entry_some (k := d) (by rw [policyEntry, hp]; rfl)]
    show (AList.insert p.dogId p s.byDog).lookup d = _
    rw [HashMap.lookup_insert]
    by_cases hd : d = p.dogId
    · rw [if_pos hd, if_pos hd.symm]; rfl
    · rw [if_neg hd, if_neg (Ne.symm hd)]; rfl
  have hcurrent : policies.current d = db.policy F d := by
    unfold PolicyStore.current Db.policy
    rw [hrows, Option.or_none]
  refine foldlM_inv (I := fun s : PolicyStore => s.current d = db.policy F d) (fun s r s' hs e => ?_) hcurrent h₂
  obtain ⟨t, -, e⟩ := Option.bind_eq_some_iff.1 e
  obtain ⟨d', -, e⟩ := Option.bind_eq_some_iff.1 e
  cases e
  rw [PolicyStore.current_bindTerminal]
  exact hs

end

/-! ## Memory and table -/

/-- The tables are there and legible, and have for every dog the policy in force. -/
structure PoliciesSaved (F : Formats) (w : World) : Prop where
  whole : w.db.Whole F
  policy : ∀ d, w.data.policies.current d = w.db.policy F d

/-- The writes of policies. -/
def Call.writesPolicy : Call → Prop
  | .policiesSet _ => True
  | .sql (.savePolicy _) => True
  | _ => False

section

variable {st : AppState} {w : World}

/-- **A restart finds the policies in force.** -/
theorem PoliciesSaved.restart {s : Server} (h : PoliciesSaved st.formats s.world) (now : DateTime) :
    ∃ s', s.restart st now = some s' ∧ ∀ d, s'.world.data.policies.current d = s.world.data.policies.current d := by
  obtain ⟨s', hs⟩ := h.whole.restarts now
  refine ⟨s', hs, fun d => ?_⟩
  rw [h.policy d]
  exact load_policy (restart_db hs).2.2.2 d

/-- **A call that writes no policy** keeps memory and table as they are. -/
theorem PoliciesSaved.call (hF : st.formats.LawfulIds) (h : PoliciesSaved st.formats w) (t : DateTime) {c : Call}
    (hc : ¬ c.writesPolicy) : PoliciesSaved st.formats (exec st t c w).2 := by
  refine ⟨exec_whole hF t c h.whole, fun d => ?_⟩
  have hrows : (exec st t c w).2.db.dogPolicy = w.db.dogPolicy := by
    rw [exec_db]
    cases c with
    | sql q => exact run_dogPolicy (fun p hq => hc (by rw [hq]; trivial)) _
    | _ => rfl
  have hcurrent : (exec st t c w).2.data.policies.current d = w.data.policies.current d := by
    rw [exec_current]
    cases c with
    | policiesSet p => exact absurd trivial hc
    | _ => rfl
  rw [hcurrent, h.policy d]
  unfold Db.policy
  rw [hrows]

/-- **A policy that is set in memory and saved in the table.** -/
theorem PoliciesSaved.store (hF : st.formats.LawfulIds) (h : PoliciesSaved st.formats w) {w' : World} (p : DogPolicy)
    (hmem : ∀ d, w'.data.policies.current d = if d = p.dogId then p else w.data.policies.current d)
    (hdb : w'.db = ((Stmt.savePolicy p).run st.formats w.db).2) : PoliciesSaved st.formats w' where
  whole := by rw [hdb]; exact h.whole.run hF _
  policy d := by rw [hmem, hdb, policy_replaceRow hF (run_savePolicy (h.whole.tables _) p), h.policy d]

/-! ## One request -/

theorem writesPolicy_of_makes {r : Request} (hr : r.editsPolicy = false) (hr' : r.isEnroll = false) {c : Call}
    (hc : r.makes c) : ¬ c.writesPolicy := by
  intro hw
  cases c with
  | policiesSet p => exact absurd hc (by rw [Request.makes, hr]; decide)
  | sql q =>
    cases q with
    | savePolicy p => exact absurd hc (by rw [Request.makes, Request.writes, hr, hr']; decide)
    | _ => exact hw
  | _ => exact hw

/-- An edit of a policy, as `set_estop` and `set_social_disabled` make it, and the saving of what is then in force. -/
theorem PoliciesSaved.edited (hF : st.formats.LawfulIds) (h : PoliciesSaved st.formats w) {f : DogPolicy → DogPolicy}
    (hf : ∀ p, (f p).dogId = p.dogId) (d : DogId) {α : Type} {rest : Api α}
    (hrest : rest.All (fun c => ¬ c.writesPolicy)) (κ : Nat → DateTime) :
    PoliciesSaved st.formats ((Prog.call (.policiesEnsure d) (fun p => .call (.policiesSet (f p)) (fun _ =>
      .call (.policiesEnsure d) (fun p => .call (.sql (.savePolicy p)) (fun _ => rest)))) : Api α).eval
        (exec st) κ w).2 := by
  have hdog : (w.data.policies.current d).dogId = d := by rw [h.policy]; exact policy_dogId _ _
  simp only [Prog.eval_call]
  refine Prog.All.eval (exec st) (fun c hc t w hw => hw.call hF t hc) hrest _ _ ?_
  refine h.store hF (f (w.data.policies.current d)) (fun d' => ?_) ?_
  · simp only [exec_current, exec_ensure_fst]
  · simp only [exec_db, exec_ensure_fst, exec_current, hf, hdog, if_true]

/-- **A steward's change of a policy** is in memory and in the table. -/
theorem PoliciesSaved.steward (hF : st.formats.LawfulIds) (hp : st.pool = true) (h : PoliciesSaved st.formats w)
    {r : Request} (hr : r.editsPolicy = true) (κ : Nat → DateTime) :
    PoliciesSaved st.formats ((handle st r).eval (exec st) κ w).2 := by
  cases r with
  | stewardEstop hdr d on =>
    show PoliciesSaved st.formats ((stewardEstop st hdr d on).eval (exec st) κ w).2
    unfold stewardEstop
    simp only [setEstop, policiesGet, policiesEnsure, policiesSet, sessionsForDog, sessionsEnd, sql, Prog.call_bind,
      Prog.done_bind, Prog.op_eq, Prog.pure_eq]
    cases verifySteward st hdr with
    | error s => exact h
    | ok u =>
      rw [hp]
      refine h.edited hF (f := fun p => { p with emergencyStop := on }) (fun _ => rfl) d ?_ κ
      cases on with
      | false => trivial
      | true =>
        refine ⟨id, fun found => ?_⟩
        cases found with
        | none => trivial
        | some x => exact ⟨id, fun _ => ⟨id, fun _ => trivial⟩⟩
  | stewardSocial hdr d on =>
    show PoliciesSaved st.formats ((stewardSocial st hdr d on).eval (exec st) κ w).2
    unfold stewardSocial
    simp only [setSocialDisabled, policiesGet, policiesEnsure, policiesSet, sql, Prog.call_bind, Prog.op_eq,
      Prog.pure_eq]
    cases verifySteward st hdr with
    | error s => exact h
    | ok u =>
      rw [hp]
      exact h.edited hF (f := fun p => { p with socialDisabled := on }) (fun _ => rfl) d (Prog.all_done _ _) κ
  | stewardPolicy hdr b =>
    show PoliciesSaved st.formats ((stewardPolicy st hdr b).eval (exec st) κ w).2
    unfold stewardPolicy
    simp only [policiesGet, policiesEnsure, policiesSet, sql, Prog.op_bind, Prog.pure_eq]
    cases verifySteward st hdr with
    | error s => exact h
    | ok u =>
      rw [hp]
      simp only [if_true, Prog.eval_call, Prog.eval_done]
      refine h.store hF (b.apply (w.data.policies.current b.dogId)) (fun d => ?_) ?_
      · simp only [exec_current, exec_ensure_fst]
      · simp only [exec_db, exec_ensure_fst]
  | _ => cases hr

/-- **A successful `save_enroll` stores the default policy.** -/
theorem saveEnroll_ok {t : TerminalId} {d : DogId} {hash : String} {κ : Nat → DateTime}
    (h : ((saveEnroll t d hash).eval (exec st) κ w).1 = true) :
    ((saveEnroll t d hash).eval (exec st) κ w).2.db.dogPolicy =
      replaceRow (·.dogId) (policyRow st.formats (.defaultFor d)) w.db.dogPolicy := by
  revert h
  unfold saveEnroll
  simp only [sql, Prog.op_eq, Prog.call_bind, Prog.done_bind, Prog.pure_eq]
  rw [Prog.eval_call]
  cases h₁ : (exec st (κ 0) (.sql (.insertDog d)) w).1 with
  | false =>
    intro h
    cases h
  | true =>
    have hdb₁ := congrArg Db.dogPolicy (sql_ok h₁)
    generalize (exec st (κ 0) (.sql (.insertDog d)) w).2 = w₁ at hdb₁ ⊢
    rw [if_neg (by decide), Prog.eval_call]
    cases h₂ : (exec st (κ (0 + 1)) (.sql (.saveTerminal t d hash)) w₁).1 with
    | false =>
      intro h
      cases h
    | true =>
      have hdb₂ := congrArg Db.dogPolicy (sql_ok h₂)
      generalize (exec st (κ (0 + 1)) (.sql (.saveTerminal t d hash)) w₁).2 = w₂ at hdb₂ ⊢
      rw [if_neg (by decide), Prog.eval_call, Prog.eval_done]
      intro h₃
      have hinsert : (Stmt.effect st.formats w.db (.insertDog d)).dogPolicy = w.db.dogPolicy := by
        unfold Stmt.effect
        dsimp only
        split <;> rfl
      rw [sql_ok h₃]
      show replaceRow _ _ w₂.db.dogPolicy = _
      rw [hdb₂]
      show replaceRow _ _ w₁.db.dogPolicy = _
      rw [hdb₁, hinsert]

theorem saveEnroll_succeeds (ht : ∀ t, t ∈ w.db.tables) (t : TerminalId) (d : DogId) (hash : String)
    (κ : Nat → DateTime) : ((saveEnroll t d hash).eval (exec st) κ w).1 = true := by
  have h₁ : (Stmt.insertDog d).succeeds st.formats w.db = true := by simp [Stmt.succeeds, Stmt.table, ht]
  have hdog : st.formats.uuid d.uuid ∈ (Stmt.effect st.formats w.db (.insertDog d)).dogs := by
    unfold Stmt.effect
    dsimp only
    split
    · assumption
    · exact List.mem_append_right _ List.mem_cons_self
  have h₂ : (Stmt.saveTerminal t d hash).succeeds st.formats (Stmt.effect st.formats w.db (.insertDog d)) = true := by
    simp [Stmt.succeeds, Stmt.table, effect_tables, ht, hdog]
  have h₃ : (Stmt.savePolicy (.defaultFor d)).succeeds st.formats
      (Stmt.effect st.formats (Stmt.effect st.formats w.db (.insertDog d)) (.saveTerminal t d hash)) = true := by
    simp [Stmt.succeeds, Stmt.table, effect_tables, ht]
  unfold saveEnroll
  simp only [sql, Prog.op_eq, Prog.call_bind, Prog.done_bind, Prog.pure_eq]
  rw [Prog.eval_call, sql_succeeds h₁, if_neg (by intro h; cases h), Prog.eval_call, sql_succeeds h₂,
    if_neg (by intro h; cases h), Prog.eval_call, sql_succeeds h₃]
  rfl

/-- **An enrolment of a dog that has the default policy** changes no policy. -/
theorem PoliciesSaved.saveEnroll (hF : st.formats.LawfulIds) (h : PoliciesSaved st.formats w) {d : DogId}
    (hd : w.db.policy st.formats d = .defaultFor d) (t : TerminalId) (hash : String) (κ : Nat → DateTime) :
    PoliciesSaved st.formats ((Api.saveEnroll t d hash).eval (exec st) κ w).2 := by
  have hcalls := saveEnroll_makes (r := .devEnroll none none) rfl t d hash
  have hok : ((Api.saveEnroll t d hash).eval (exec st) κ w).1 = true := saveEnroll_succeeds h.whole.tables t d hash κ
  have hrows := saveEnroll_ok hok
  refine ⟨Prog.All.eval (exec st) (I := fun w => w.db.Whole st.formats) (fun c _ t _ hw => exec_whole hF t c hw) hcalls
    κ w h.whole, fun d' => ?_⟩
  have hcurrent := Prog.All.eval (exec st) (I := fun w' => w'.data.policies.current d' = w.data.policies.current d')
    (fun c hc t w' hw => by
      rw [exec_current]
      cases c with
      | policiesSet p => cases hc
      | _ => exact hw) hcalls κ w rfl
  rw [hcurrent, policy_replaceRow hF hrows, h.policy d']
  split
  · rename_i hd'
    rw [hd']
    exact hd
  · rfl

end

/-! ## Every run -/

/-- The terminal and the dog that an enrolment binds: those it names, or new ones. -/
def enrolment (s : Server) (a : Arrival) : Option (TerminalId × DogId) :=
  match a.req with
  | .devEnroll t d => some (t.getD ⟨s.world.nextUuid⟩, d.getD ⟨s.world.nextUuid + 1⟩)
  | _ => none

/-- An enrolment finds its dog with the default policy in the table, or with none. -/
def EnrollsDefault (st : AppState) (s : Server) (a : Arrival) : Prop :=
  ∀ e ∈ enrolment s a, s.world.db.policy st.formats e.2 = .defaultFor e.2

instance (st : AppState) (s : Server) (a : Arrival) : Decidable (EnrollsDefault st s a) :=
  inferInstanceAs (Decidable (∀ e ∈ enrolment s a, _))

section

variable {st : AppState}

theorem PoliciesSaved.started {now : DateTime} {db : Db} {n : Uuid} {s : Server} (ht : ∀ t, t ∈ db.tables)
    (h : Server.started st now db n = some s) : PoliciesSaved st.formats s.world := by
  obtain ⟨hwhole, hloaded⟩ := started_whole ht h
  exact ⟨hwhole, load_policy hloaded⟩

/-- **One request keeps memory and table together.** -/
theorem PoliciesSaved.serve (hF : st.formats.LawfulIds) (hp : st.pool = true) {s : Server} {a : Arrival}
    (h : PoliciesSaved st.formats s.world) (hc : EnrollsDefault st s a) :
    PoliciesSaved st.formats (s.serve st a).world := by
  cases hedit : a.req.editsPolicy with
  | true => exact h.steward hF hp hedit a.clock
  | false =>
    cases henroll : a.req.isEnroll with
    | false => exact Server.serve_inv (fun c hc t w hw => hw.call hF t (writesPolicy_of_makes hedit henroll hc)) h
    | true =>
      obtain ⟨req, clock⟩ := a
      cases req with
      | devEnroll t d =>
        show PoliciesSaved st.formats ((devEnroll st t d).eval (exec st) clock s.world).2
        unfold devEnroll
        simp only [newUuid, bindTerminal, Prog.op_bind, Prog.pure_eq, Prog.eval_call]
        rw [hp, if_pos rfl, Prog.eval_bind, Prog.eval_done]
        have hbound := ((h.call hF (clock 0) (c := .newUuid) id).call hF (clock 1) (c := .newUuid) id).call hF (clock 2)
          (c := .bindTerminal (t.getD ⟨s.world.nextUuid⟩) (d.getD ⟨s.world.nextUuid + 1⟩)) id
        refine hbound.saveEnroll hF ?_ _ _ _
        exact hc _ rfl
      | _ => cases henroll

/-- **Enrolling keeps the row of a dog exactly if it is the default row; while enrolments find the default, a restart
gives every dog the policy it had.** -/
theorem policies_kept (st : AppState) (hp : st.pool = true) (hF : st.formats.LawfulIds) :
    (∀ (w : World) (t : TerminalId) (d : DogId) (hash : String) (κ : Nat → DateTime),
      ((saveEnroll t d hash).eval (exec st) κ w).1 = true →
      ∀ r ∈ w.db.dogPolicy, r.dogId = st.formats.uuid d.uuid →
        (r ∈ ((saveEnroll t d hash).eval (exec st) κ w).2.db.dogPolicy ↔
          r = policyRow st.formats (.defaultFor d))) ∧
    ∀ (db : Db) (t₀ : DateTime) (n : Uuid) (s : Server) (as : List Arrival), (∀ t, t ∈ db.tables) →
      Server.started st t₀ db n = some s → s.Meets st (EnrollsDefault st) as → ∀ now : DateTime,
      ∃ s', (s.serveAll st as).restart st now = some s' ∧
        ∀ d, s'.world.data.policies.current d = (s.serveAll st as).world.data.policies.current d := by
  refine ⟨fun w t d hash κ hok r hr hdog => ?_, fun db t₀ n s as ht hs hm now => ?_⟩
  · rw [saveEnroll_ok hok, mem_replaceRow]
    refine ⟨fun h => ?_, .inr⟩
    rcases h with ⟨-, hne⟩ | rfl
    · exact absurd hdog hne
    · rfl
  · exact (Server.serveAll_inv (I := fun s => PoliciesSaved st.formats s.world) (fun s a h hc => h.serve hF hp hc) as s
      (.started ht hs) hm).restart now

end

/-- Dog 1 is enrolled twice, and then stopped. -/
def enrolledThenStopped : List Arrival :=
  Server.timed ([.devEnroll (some ⟨1⟩) (some ⟨1⟩), .devEnroll (some ⟨2⟩) (some ⟨1⟩),
    .stewardEstop (some "Steward s") ⟨1⟩ true].map (fun r => (noon, r)))

theorem policies_kept_stop : ∃ s',
    (Server.serveAll bench ⟨fresh, noon⟩ enrolledThenStopped).restart bench noon = some s' ∧
    ∀ d, s'.world.data.policies.current d =
      (Server.serveAll bench ⟨fresh, noon⟩ enrolledThenStopped).world.data.policies.current d :=
  (policies_kept bench rfl decimals_lawful.toLawfulIds).2 fresh.db noon 0 ⟨fresh, noon⟩ enrolledThenStopped
    mem_allTables rfl (by decide +kernel) noon

/-- The stop of dog 1. -/
def stopNow : Arrival := ⟨.stewardEstop (some "Steward s") ⟨1⟩ true, fun _ => noon⟩

/-- **Enrolling a stopped dog clears its stop**: the row is replaced by the default one, and after a restart the dog is
no longer stopped. -/
theorem stop_cleared :
    (¬ ∀ (st : AppState) (w : World) (t : TerminalId) (d : DogId) (hash : String) (κ : Nat → DateTime),
      (∀ t, t ∈ w.db.tables) → ((saveEnroll t d hash).eval (exec st) κ w).1 = true →
      ∀ r ∈ w.db.dogPolicy, r.dogId = st.formats.uuid d.uuid →
        r ∈ ((saveEnroll t d hash).eval (exec st) κ w).2.db.dogPolicy) ∧
    ¬ ∀ (st : AppState) (db : Db) (t₀ : DateTime) (n : Uuid) (s : Server) (as : List Arrival), st.pool = true →
      st.formats.LawfulIds → (∀ t, t ∈ db.tables) → Server.started st t₀ db n = some s →
      (∀ a ∈ as, a.req.isEnroll = true ∨ a.req.editsPolicy = true) → ∀ now : DateTime,
      ∃ s', (s.serveAll st as).restart st now = some s' ∧
        ∀ d, s'.world.data.policies.current d = (s.serveAll st as).world.data.policies.current d := by
  constructor
  · intro h
    have := h bench (Server.serve bench ⟨fresh, noon⟩ stopNow).world ⟨1⟩ ⟨1⟩ "" (fun _ => noon) mem_allTables
      (by decide +kernel) (policyRow decimals { DogPolicy.defaultFor ⟨1⟩ with emergencyStop := true })
      (by decide +kernel) (by decide +kernel)
    revert this
    decide +kernel
  · intro h
    obtain ⟨s', hs, hkept⟩ := h bench fresh.db noon 0 ⟨fresh, noon⟩
      [stopNow, ⟨.devEnroll (some ⟨1⟩) (some ⟨1⟩), fun _ => noon⟩] rfl decimals_lawful.toLawfulIds mem_allTables rfl
      (by decide) noon
    have hpolicy := congrArg (Option.map (fun s => (s.world.data.policies.current ⟨1⟩).emergencyStop)) hs
    rw [Option.map_some, hkept ⟨1⟩] at hpolicy
    revert hpolicy
    decide +kernel

end CanisLink
