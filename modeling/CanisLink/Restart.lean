import CanisLink.Server
/-!
# Restart — what a new process finds in the tables

Every row the statements write parses, so `load_into` never fails on a database of ours, and reads each invite and each
session row back to the record it was written from, the dates as far as their texts read back.  `Lives` are the servers
of a whole life: a first start, requests one at a time, and restarts.
-/
namespace CanisLink

open Interleave (Prog)

/-! ## Rows read back -/

/-- The instant that `parse_dt` reads at `now` from the text of `t`. -/
def rereadDt (F : Formats) (now t : DateTime) : DateTime := parseDt F now (F.rfc3339 t)

theorem rereadDt_eq {F : Formats} {t : DateTime} (h : F.ReadsBack t) (now : DateTime) : rereadDt F now t = t := by
  unfold rereadDt parseDt
  rw [h]

def Invite.dates (inv : Invite) : List DateTime := [inv.createdAt, inv.expiresAt]
def SessionRecord.dates (x : SessionRecord) : List DateTime := [x.startedAt, x.maxEndAt, x.segmentDeadlineAt]

/-- The invite that `load_into` reads at `now` from the row of `inv`. -/
def Invite.reread (F : Formats) (now : DateTime) (inv : Invite) : Invite :=
  { inv with createdAt := rereadDt F now inv.createdAt, expiresAt := rereadDt F now inv.expiresAt }

/-- The session that `load_into` reads at `now` from the row of `x`. -/
def SessionRecord.reread (F : Formats) (now : DateTime) (x : SessionRecord) : SessionRecord :=
  { x with startedAt := rereadDt F now x.startedAt, maxEndAt := rereadDt F now x.maxEndAt,
           segmentDeadlineAt := rereadDt F now x.segmentDeadlineAt }

theorem Invite.reread_eq {F : Formats} {inv : Invite} (h : ∀ t ∈ inv.dates, F.ReadsBack t) (now : DateTime) :
    inv.reread F now = inv := by
  unfold Invite.reread
  rw [rereadDt_eq (h _ (by simp [Invite.dates])), rereadDt_eq (h _ (by simp [Invite.dates]))]

theorem SessionRecord.reread_eq {F : Formats} {x : SessionRecord} (h : ∀ t ∈ x.dates, F.ReadsBack t)
    (now : DateTime) : x.reread F now = x := by
  unfold SessionRecord.reread
  rw [rereadDt_eq (h _ (by simp [SessionRecord.dates])), rereadDt_eq (h _ (by simp [SessionRecord.dates])),
    rereadDt_eq (h _ (by simp [SessionRecord.dates]))]

section

variable {F : Formats} (hF : F.LawfulIds)
include hF

/-- **An invite row reads back**, its dates as `parse_dt` reads them. -/
theorem inviteOfRow_inviteRow (now : DateTime) (inv : Invite) :
    inviteOfRow F now (inviteRow F inv) = some (inv.reread F now) := by
  simp only [inviteOfRow, inviteRow, hF.parse_uuid, parseMode_modeStr, parseState_stateStr]
  rfl

/-- **A session row reads back**, its dates as `parse_dt` reads them. -/
theorem sessionOfRow_sessionRow (now : DateTime) (x : SessionRecord) (ma mb : Bool) :
    sessionOfRow F now (sessionRow F x ma mb) = some (x.reread F now) := by
  simp only [sessionOfRow, sessionRow, hF.parse_uuid, parseMode_modeStr, parseState_stateStr]
  rfl

end

theorem inviteOfRow_isSome {F : Formats} (now now' : DateTime) (r : InviteRow) :
    (inviteOfRow F now r).isSome ↔ (inviteOfRow F now' r).isSome := by
  unfold inviteOfRow
  cases F.parseUuid r.inviteId <;> cases F.parseUuid r.fromDog <;> cases F.parseUuid r.toDog <;> exact Iff.rfl

theorem sessionOfRow_isSome {F : Formats} (now now' : DateTime) (r : SessionRow) :
    (sessionOfRow F now r).isSome ↔ (sessionOfRow F now' r).isSome := by
  unfold sessionOfRow
  cases F.parseUuid r.sessionId <;> cases F.parseUuid r.inviteId <;> cases F.parseUuid r.dogA <;>
    cases F.parseUuid r.dogB <;> exact Iff.rfl

theorem flag_ne_zero (b : Bool) : decide (flag b ≠ 0) = b := by
  cases b <;> rfl

/-- Every row of the tables `load_into` reads parses. -/
structure Db.Legible (F : Formats) (db : Db) : Prop where
  dogPolicy : ∀ r ∈ db.dogPolicy, (policyOfRow F r).isSome
  terminals : ∀ r ∈ db.terminals, (F.parseUuid r.terminalId).isSome ∧ (F.parseUuid r.dogId).isSome
  bonds : ∀ r ∈ db.bonds, (F.parseUuid r.dogA).isSome ∧ (F.parseUuid r.dogB).isSome
  invites : ∀ r ∈ db.invites, ∀ now, (inviteOfRow F now r).isSome
  sessions : ∀ r ∈ db.sessions, ∀ now, (sessionOfRow F now r).isSome

theorem legible_empty (F : Formats) (tables : List Table) : Db.Legible F { tables } :=
  ⟨fun _ h => absurd h List.not_mem_nil, fun _ h => absurd h List.not_mem_nil, fun _ h => absurd h List.not_mem_nil,
    fun _ h => absurd h List.not_mem_nil, fun _ h => absurd h List.not_mem_nil⟩

/-- What holds of the rows and of the new row holds of the rows after an upsert. -/
theorem forall_replaceRow {ρ κ : Type} [DecidableEq κ] {key : ρ → κ} {row : ρ} {rows : List ρ} {P : ρ → Prop}
    (h : ∀ r ∈ rows, P r) (hrow : P row) : ∀ r ∈ replaceRow key row rows, P r := by
  intro r hr
  rcases mem_replaceRow.1 hr with ⟨hr, -⟩ | rfl
  · exact h r hr
  · exact hrow

/-- **Every statement keeps the rows legible.** -/
theorem Db.Legible.run {F : Formats} (hF : F.LawfulIds) {db : Db} (h : db.Legible F) (s : Stmt) :
    (s.run F db).2.Legible F := by
  unfold Stmt.run
  split
  · cases s with
    | insertDog d =>
      simp only [Stmt.effect]
      split
      · exact h
      · exact ⟨h.dogPolicy, h.terminals, h.bonds, h.invites, h.sessions⟩
    | saveTerminal t d hash =>
      exact { h with terminals := forall_replaceRow h.terminals (by simp [hF.parse_uuid]) }
    | savePolicy p =>
      exact { h with dogPolicy := forall_replaceRow h.dogPolicy (by simp [policyOfRow, policyRow, hF.parse_uuid]) }
    | saveBond a b w =>
      exact { h with bonds := forall_replaceRow h.bonds (by simp [hF.parse_uuid]) }
    | saveInvite inv =>
      exact { h with invites := forall_replaceRow h.invites (fun now => by rw [inviteOfRow_inviteRow hF]; rfl) }
    | deleteInvite id => exact { h with invites := fun r hr => h.invites r (List.mem_of_mem_filter hr) }
    | saveSession x ma mb =>
      exact { h with sessions := forall_replaceRow h.sessions (fun now => by rw [sessionOfRow_sessionRow hF]; rfl) }
    | deleteSession id => exact { h with sessions := fun r hr => h.sessions r (List.mem_of_mem_filter hr) }
    | savePresence r => exact ⟨h.dogPolicy, h.terminals, h.bonds, h.invites, h.sessions⟩
    | recordInviteEvent d t => exact ⟨h.dogPolicy, h.terminals, h.bonds, h.invites, h.sessions⟩
  · exact h

/-- All tables are there, and `load_into` can read them. -/
structure Db.Whole (F : Formats) (db : Db) : Prop where
  legible : db.Legible F
  tables : ∀ t, t ∈ db.tables

theorem Db.Whole.run {F : Formats} (hF : F.LawfulIds) {db : Db} (h : db.Whole F) (q : Stmt) : (q.run F db).2.Whole F :=
  ⟨h.legible.run hF q, fun t => by rw [run_tables]; exact h.tables t⟩

theorem exec_whole {st : AppState} (hF : st.formats.LawfulIds) {w : World} (t : DateTime) (c : Call)
    (h : w.db.Whole st.formats) : (exec st t c w).2.db.Whole st.formats := by
  rw [exec_db]
  cases c with
  | sql q => exact h.run hF q
  | _ => exact h

theorem foldlM_isSome {σ α : Type} {f : σ → α → Option σ} : ∀ {l : List α} {s : σ}, (∀ s, ∀ a ∈ l, (f s a).isSome) →
    ∃ s', l.foldlM f s = some s'
  | [], s, _ => ⟨s, rfl⟩
  | a :: l, s, h => by
    obtain ⟨s₁, h₁⟩ := Option.isSome_iff_exists.1 (h s a List.mem_cons_self)
    obtain ⟨s', hs'⟩ := foldlM_isSome (s := s₁) (fun s b hb => h s b (List.mem_cons_of_mem a hb))
    exact ⟨s', by rw [List.foldlM_cons, h₁]; exact hs'⟩

theorem foldlM_inv {σ α : Type} {f : σ → α → Option σ} {I : σ → Prop} (h : ∀ s a s', I s → f s a = some s' → I s') :
    ∀ {l : List α} {s s' : σ}, I s → l.foldlM f s = some s' → I s'
  | [], _, _, hs, e => Option.some.inj e ▸ hs
  | a :: l, s, _, hs, e => by
    rw [List.foldlM_cons] at e
    obtain ⟨s₁, h₁, e⟩ := Option.bind_eq_some_iff.1 e
    exact foldlM_inv h (h s a s₁ hs h₁) e

/-- A load loop takes in the rows of a list one after another: `I s xs` says what is loaded after those of `xs`. -/
theorem foldlM_rows {σ α ρ : Type} {f : σ → ρ → Option σ} {row : α → ρ} {I : σ → List α → Prop} {Apart : α → α → Prop}
    (h : ∀ s xs v, I s xs → (∀ v' ∈ xs, Apart v' v) → ∃ s', f s (row v) = some s' ∧ I s' (xs ++ [v])) :
    ∀ (vs xs : List α) {s : σ}, I s xs → (xs ++ vs).Pairwise Apart →
      ∃ s', (vs.map row).foldlM f s = some s' ∧ I s' (xs ++ vs)
  | [], xs, s, hs, _ => ⟨s, rfl, by rwa [List.append_nil]⟩
  | v :: vs, xs, s, hs, hp => by
    obtain ⟨s₁, h₁, hs₁⟩ := h s xs v hs (fun v' hv' => (List.pairwise_append.1 hp).2.2 v' hv' v List.mem_cons_self)
    rw [List.append_cons] at hp ⊢
    obtain ⟨s', h', hs'⟩ := foldlM_rows h vs (xs ++ [v]) hs₁ hp
    exact ⟨s', by rw [List.map_cons, List.foldlM_cons, h₁]; exact h', hs'⟩

/-- The invites read back are consistent, whatever the rows. -/
theorem loadInvites_consistent {F : Formats} {now : DateTime} {rows : List InviteRow} {s : InviteStore}
    (h : rows.foldlM (loadInvite F now) {} = some s) : s.Consistent := by
  refine foldlM_inv (fun s r s' hs e => ?_) InviteStore.Consistent.empty h
  obtain ⟨inv, -, e⟩ := Option.bind_eq_some_iff.1 e
  cases hi : s.insert inv with
  | ok s₁ =>
    rw [hi] at e
    cases e
    exact hs.insert hi
  | error m =>
    rw [hi] at e
    cases e
    exact hs

theorem loadSessions_consistent {F : Formats} {now : DateTime} {rows : List SessionRow} {s : SessionStore}
    (h : rows.foldlM (loadSession F now) {} = some s) : s.Consistent := by
  refine foldlM_inv (fun s r s' hs e => ?_) SessionStore.Consistent.empty h
  obtain ⟨x, -, e⟩ := Option.bind_eq_some_iff.1 e
  cases e
  have mark : ∀ {s : SessionStore} (b : Bool) (d : DogId), s.Consistent →
      (if b = true then (s.setMediaReady x.id d true).2 else s).Consistent := by
    intro s b d hs
    split
    · exact hs.setMediaReady _ _ _
    · exact hs
  unfold restoreSession
  refine mark _ _ (mark _ _ ?_)
  cases hi : s.insert x with
  | ok s₁ => exact hs.insert hi
  | error m => exact hs

/-- A fold that gives a result took every element of the list. -/
theorem isSome_of_foldlM {σ α : Type} {f : σ → α → Option σ} : ∀ {l : List α} {s s' : σ}, l.foldlM f s = some s' →
    ∀ a ∈ l, ∃ s, (f s a).isSome
  | [], _, _, _, _, ha => absurd ha List.not_mem_nil
  | a :: l, s, s', h, b, hb => by
    rw [List.foldlM_cons] at h
    obtain ⟨s₁, h₁, h⟩ := Option.bind_eq_some_iff.1 h
    rcases List.mem_cons.1 hb with rfl | hb
    · exact ⟨s, by rw [h₁]; rfl⟩
    · exact isSome_of_foldlM h b hb

/-- **What `load_into` loads**: each store is what the loop over its rows makes of it. -/
theorem loadInto_loops {F : Formats} {now : DateTime} {db : Db} {data data' : AppData}
    (h : loadInto F now db data = some data') :
    (∃ policies, db.dogPolicy.foldlM (loadPolicy F) data.policies = some policies ∧
      db.terminals.foldlM (loadTerminal F) policies = some data'.policies) ∧
    db.bonds.foldlM (loadBond F) data.bonds = some data'.bonds ∧
    db.invites.foldlM (loadInvite F now) data.invites = some data'.invites ∧
    db.sessions.foldlM (loadSession F now) data.sessions = some data'.sessions := by
  unfold loadInto at h
  split at h
  · cases h
  · simp only [Option.bind_eq_bind] at h
    obtain ⟨policies, h₁, h⟩ := Option.bind_eq_some_iff.1 h
    obtain ⟨policies', h₂, h⟩ := Option.bind_eq_some_iff.1 h
    obtain ⟨bonds, h₃, h⟩ := Option.bind_eq_some_iff.1 h
    obtain ⟨invites, h₄, h⟩ := Option.bind_eq_some_iff.1 h
    obtain ⟨sessions, h₅, h⟩ := Option.bind_eq_some_iff.1 h
    cases h
    exact ⟨⟨policies, h₁, h₂⟩, h₃, h₄, h₅⟩

theorem legible_of_load {F : Formats} {now : DateTime} {db : Db} {data data' : AppData}
    (h : loadInto F now db data = some data') : db.Legible F := by
  obtain ⟨⟨policies, h₁, h₂⟩, h₃, h₄, h₅⟩ := loadInto_loops h
  constructor
  · intro r hr
    obtain ⟨s, hs⟩ := isSome_of_foldlM h₁ r hr
    cases hp : policyOfRow F r with
    | none => rw [loadPolicy, hp] at hs; cases hs
    | some p => rfl
  · intro r hr
    obtain ⟨s, hs⟩ := isSome_of_foldlM h₂ r hr
    unfold loadTerminal at hs
    cases ht : F.parseUuid r.terminalId with
    | none => rw [ht] at hs; cases hs
    | some t =>
      cases hd : F.parseUuid r.dogId with
      | none => rw [ht, hd] at hs; cases hs
      | some d => exact ⟨rfl, rfl⟩
  · intro r hr
    obtain ⟨s, hs⟩ := isSome_of_foldlM h₃ r hr
    unfold loadBond at hs
    cases ha : F.parseUuid r.dogA with
    | none => rw [ha] at hs; cases hs
    | some a =>
      cases hb : F.parseUuid r.dogB with
      | none => rw [ha, hb] at hs; cases hs
      | some b => exact ⟨rfl, rfl⟩
  · intro r hr now'
    obtain ⟨s, hs⟩ := isSome_of_foldlM h₄ r hr
    unfold loadInvite at hs
    cases hi : inviteOfRow F now r with
    | none => rw [hi] at hs; cases hs
    | some inv => exact (inviteOfRow_isSome now now' r).1 (by rw [hi]; rfl)
  · intro r hr now'
    obtain ⟨s, hs⟩ := isSome_of_foldlM h₅ r hr
    unfold loadSession at hs
    cases hx : sessionOfRow F now r with
    | none => rw [hx] at hs; cases hs
    | some x => exact (sessionOfRow_isSome now now' r).1 (by rw [hx]; rfl)

/-- **`load_into` loads legible tables**; its invites and sessions are those of the two loops. -/
theorem loadInto_legible {F : Formats} {db : Db} (h : db.Legible F) (ht : ∀ t ∈ loadTables, t ∈ db.tables)
    (now : DateTime) :
    ∃ data, loadInto F now db {} = some data ∧ db.invites.foldlM (loadInvite F now) {} = some data.invites ∧
      db.sessions.foldlM (loadSession F now) {} = some data.sessions := by
  obtain ⟨policies₁, h₁⟩ : ∃ p, db.dogPolicy.foldlM (loadPolicy F) {} = some p :=
    foldlM_isSome (fun s r hr => by
      obtain ⟨p, hp⟩ := Option.isSome_iff_exists.1 (h.dogPolicy r hr)
      simp [loadPolicy, hp])
  obtain ⟨policies, h₂⟩ : ∃ p, db.terminals.foldlM (loadTerminal F) policies₁ = some p :=
    foldlM_isSome (fun s r hr => by
      obtain ⟨t, hp⟩ := Option.isSome_iff_exists.1 (h.terminals r hr).1
      obtain ⟨d, hd⟩ := Option.isSome_iff_exists.1 (h.terminals r hr).2
      simp [loadTerminal, hp, hd])
  obtain ⟨bonds, h₃⟩ : ∃ g, db.bonds.foldlM (loadBond F) {} = some g :=
    foldlM_isSome (fun s r hr => by
      obtain ⟨a, ha⟩ := Option.isSome_iff_exists.1 (h.bonds r hr).1
      obtain ⟨b, hb⟩ := Option.isSome_iff_exists.1 (h.bonds r hr).2
      simp [loadBond, ha, hb])
  obtain ⟨invites, h₄⟩ : ∃ s, db.invites.foldlM (loadInvite F now) {} = some s :=
    foldlM_isSome (fun s r hr => by
      obtain ⟨inv, hi⟩ := Option.isSome_iff_exists.1 (h.invites r hr now)
      simp only [loadInvite, hi, Option.bind_eq_bind, Option.bind_some]
      split <;> rfl)
  obtain ⟨sessions, h₅⟩ : ∃ s, db.sessions.foldlM (loadSession F now) {} = some s :=
    foldlM_isSome (fun s r hr => by
      obtain ⟨x, hx⟩ := Option.isSome_iff_exists.1 (h.sessions r hr now)
      simp [loadSession, hx])
  refine ⟨{ policies, bonds, invites, sessions }, ?_, h₄, h₅⟩
  unfold loadInto
  rw [if_neg (not_not.2 ht)]
  simp only [h₁, h₂, h₃, h₄, h₅, Option.bind_eq_bind, Option.bind_some]
  rfl

theorem Db.Whole.load {F : Formats} {db : Db} (h : db.Whole F) (now : DateTime) :
    ∃ data, loadInto F now db {} = some data ∧ db.invites.foldlM (loadInvite F now) {} = some data.invites ∧
      db.sessions.foldlM (loadSession F now) {} = some data.sessions :=
  loadInto_legible h.legible (fun t _ => h.tables t) now

/-! ## A life of device-api -/

/-- The process stops between two requests and a new one starts at `now`: only the tables are left. -/
def Server.restart (st : AppState) (now : DateTime) (s : Server) : Option Server :=
  (loadInto st.formats now s.world.db {}).map
    (fun data => ⟨{ data, db := s.world.db, nextUuid := s.world.nextUuid }, now⟩)

/-- A device-api that has just been started on a database. -/
def Server.started (st : AppState) (now : DateTime) (db : Db) (nextUuid : Uuid) : Option Server :=
  (loadInto st.formats now db {}).map (fun data => ⟨{ data, db, nextUuid }, now⟩)

/-- **The servers of a life**: a first start on an empty database, requests one at a time, each under `Cond`, and
restarts. -/
inductive Lives (st : AppState) (Cond : Server → Arrival → Prop) : Server → Prop
  | first (t : DateTime) : Lives st Cond ⟨fresh, t⟩
  | serve {s : Server} (a : Arrival) (h : Lives st Cond s) (hc : Cond s a) : Lives st Cond (s.serve st a)
  | restart {s s' : Server} (now : DateTime) (h : Lives st Cond s) (hnow : s.time ≤ now)
      (hs : s.restart st now = some s') : Lives st Cond s'

section

variable {st : AppState} {Cond : Server → Arrival → Prop} {s s' : Server}

theorem serve_whole (hF : st.formats.LawfulIds) {a : Arrival} (h : s.world.db.Whole st.formats) :
    (s.serve st a).world.db.Whole st.formats :=
  Server.serve_inv (I := fun w => w.db.Whole st.formats) (fun c _ t _ hw => exec_whole hF t c hw) h

theorem Db.Whole.restarts (h : s.world.db.Whole st.formats) (now : DateTime) : ∃ s', s.restart st now = some s' := by
  obtain ⟨data, hd, -⟩ := h.load now
  exact ⟨_, by rw [Server.restart, hd]; rfl⟩

theorem serveAll_whole (hF : st.formats.LawfulIds) : ∀ (as : List Arrival) {s : Server}, s.world.db.Whole st.formats →
    (s.serveAll st as).world.db.Whole st.formats
  | [], _, h => h
  | _ :: as, _, h => serveAll_whole hF as (serve_whole hF h)

theorem started_whole {now : DateTime} {db : Db} {n : Uuid} (ht : ∀ t, t ∈ db.tables)
    (h : Server.started st now db n = some s) :
    s.world.db.Whole st.formats ∧ loadInto st.formats now s.world.db {} = some s.world.data := by
  obtain ⟨data, hd, rfl⟩ := Option.map_eq_some_iff.1 h
  exact ⟨⟨legible_of_load hd, ht⟩, hd⟩

theorem restart_db {now : DateTime} (h : s.restart st now = some s') :
    s'.world.db = s.world.db ∧ s'.world.nextUuid = s.world.nextUuid ∧ s'.time = now ∧
      loadInto st.formats now s.world.db {} = some s'.world.data := by
  obtain ⟨data, hd, rfl⟩ := Option.map_eq_some_iff.1 h
  exact ⟨rfl, rfl, rfl, hd⟩

theorem Lives.serveAll : ∀ {as : List Arrival} {s : Server}, Lives st Cond s → s.Meets st Cond as →
    Lives st Cond (s.serveAll st as)
  | [], _, h, _ => h
  | a :: as, s, h, hm => by
    rw [Server.serveAll_cons]
    exact Lives.serveAll (.serve a h hm.1) hm.2

theorem Lives.whole (hF : st.formats.LawfulIds) (h : Lives st Cond s) : s.world.db.Whole st.formats := by
  induction h with
  | first t => exact ⟨legible_empty _ _, mem_allTables⟩
  | serve a h hc ih => exact serve_whole hF ih
  | restart now h hnow hs ih =>
    rw [(restart_db hs).1]
    exact ih

theorem Lives.restarts (hF : st.formats.LawfulIds) (h : Lives st Cond s) (now : DateTime) :
    ∃ s', s.restart st now = some s' :=
  (h.whole hF).restarts now

/-- The stores after a restart are those of the two loops. -/
theorem Lives.reloaded (hF : st.formats.LawfulIds) (h : Lives st Cond s) {now : DateTime} {data : AppData}
    (hd : loadInto st.formats now s.world.db {} = some data) :
    s.world.db.invites.foldlM (loadInvite st.formats now) {} = some data.invites ∧
      s.world.db.sessions.foldlM (loadSession st.formats now) {} = some data.sessions := by
  obtain ⟨data', hd', loops⟩ := (h.whole hF).load now
  cases hd.symm.trans hd'
  exact loops

theorem Lives.consistent (hF : st.formats.LawfulIds) (h : Lives st Cond s) : s.world.Consistent := by
  induction h with
  | first t => exact consistent_empty _
  | serve a h hc ih => exact Server.serve_consistent a ih
  | restart now h hnow hs ih =>
    obtain ⟨hi, hx⟩ := h.reloaded hF (restart_db hs).2.2.2
    exact ⟨loadInvites_consistent hi, loadSessions_consistent hx⟩

end
end CanisLink
