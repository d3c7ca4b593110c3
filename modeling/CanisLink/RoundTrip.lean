import CanisLink.InvitesKept
import CanisLink.PolicyKept
import CanisLink.SavedSessions
/-!
# RoundTrip — loading undoes saving

Policies, invites and sessions are written one by one, in any order, into empty tables, and `load_into` reads them back.
No key is written twice, so every upsert adds a row; each row reads back to what it was written from; and no invite or
session has a dog in common with another of its kind, so the stores take in all of them.
-/
namespace CanisLink

/-- What is written: a policy, an invite, or a session with its flags. -/
inductive Record
  | policy (p : DogPolicy)
  | invite (inv : Invite)
  | session (v : Saved)

namespace Record

/-- The statement of `save_policy`, `save_invite` or `save_session`. -/
def stmt : Record → Stmt
  | policy p => .savePolicy p
  | invite inv => .saveInvite inv
  | session v => .saveSession v.session v.mediaA v.mediaB

def policy? : Record → Option DogPolicy
  | policy p => some p
  | _ => none

def invite? : Record → Option Invite
  | invite inv => some inv
  | _ => none

def session? : Record → Option Saved
  | session v => some v
  | _ => none

/-- The instants a record holds. -/
def dates : Record → List DateTime
  | policy _ => []
  | invite inv => inv.dates
  | session v => v.session.dates

/-- Two policies are of different dogs; two invites, or two sessions, have no id and no dog in common. -/
def Apart : Record → Record → Prop
  | policy p, policy p' => p.dogId ≠ p'.dogId
  | invite inv, invite inv' => inv.Apart inv'
  | session v, session v' => v.Apart v'
  | _, _ => True

/-- A session is between two dogs, and active once both are ready. -/
def Sound : Record → Prop
  | session v => v.session.dogA ≠ v.session.dogB ∧ (v.mediaA = true → v.mediaB = true → v.session.state = .active)
  | _ => True

end Record

/-- The tables after the records are written, one after another. -/
def written (F : Formats) (rs : List Record) (db : Db) : Db := rs.foldl (fun db r => (r.stmt.run F db).2) db

/-- **The data are the records**: those policies, invites, sessions and flags, and no others. -/
structure AppData.Of (data : AppData) (rs : List Record) : Prop where
  policies : ∀ d p, data.policies.byDog.lookup d = some p ↔ .policy p ∈ rs ∧ p.dogId = d
  invites : ∀ k inv, data.invites.get k = some inv ↔ .invite inv ∈ rs ∧ inv.id = k
  openForDog : ∀ d k, data.invites.openForDog.lookup d = some k ↔ ∃ inv, .invite inv ∈ rs ∧ inv.id = k ∧ inv.hasDog d
  sessions : ∀ k x, data.sessions.get k = some x ↔ ∃ ma mb, .session ⟨x, ma, mb⟩ ∈ rs ∧ x.id = k
  byDog : ∀ d k, data.sessions.byDog.lookup d = some k ↔ ∃ v, .session v ∈ rs ∧ v.session.id = k ∧ v.session.hasDog d
  media : ∀ k e, data.sessions.media.lookup k = some e ↔ ∃ x, .session ⟨x, e.mediaA, e.mediaB⟩ ∈ rs ∧ x.id = k

/-! ## The tables -/

/-- An upsert under a new key comes last. -/
theorem replaceRow_new {α ρ κ : Type} [DecidableEq κ] {key : ρ → κ} {row : α → ρ} {xs : List α} {x : α}
    (h : ∀ x' ∈ xs, key (row x') ≠ key (row x)) : replaceRow key (row x) (xs.map row) = (xs ++ [x]).map row := by
  unfold replaceRow
  rw [List.map_append, List.filter_eq_self.2]
  · rfl
  · intro r hr
    obtain ⟨x', hx', rfl⟩ := List.mem_map.1 hr
    exact decide_eq_true (h x' hx')

/-- The rows of the records, and no others. -/
structure RowsOf (F : Formats) (rs : List Record) (db : Db) : Prop where
  tables : ∀ t, t ∈ db.tables
  dogPolicy : db.dogPolicy = (rs.filterMap Record.policy?).map (policyRow F)
  invites : db.invites = (rs.filterMap Record.invite?).map (inviteRow F)
  sessions : db.sessions = (rs.filterMap Record.session?).map (Saved.row F)
  terminals : db.terminals = []
  bonds : db.bonds = []

theorem Record.mem_policies {rs : List Record} {p : DogPolicy} : p ∈ rs.filterMap Record.policy? ↔ .policy p ∈ rs := by
  rw [List.mem_filterMap]
  constructor
  · rintro ⟨r, hr, hp⟩
    cases r <;> cases hp
    exact hr
  · exact fun h => ⟨_, h, rfl⟩

theorem Record.mem_invites {rs : List Record} {inv : Invite} :
    inv ∈ rs.filterMap Record.invite? ↔ .invite inv ∈ rs := by
  rw [List.mem_filterMap]
  constructor
  · rintro ⟨r, hr, hp⟩
    cases r <;> cases hp
    exact hr
  · exact fun h => ⟨_, h, rfl⟩

theorem Record.mem_sessions {rs : List Record} {v : Saved} : v ∈ rs.filterMap Record.session? ↔ .session v ∈ rs := by
  rw [List.mem_filterMap]
  constructor
  · rintro ⟨r, hr, hp⟩
    cases r <;> cases hp
    exact hr
  · exact fun h => ⟨_, h, rfl⟩

section

variable {F : Formats} {rs : List Record} {r : Record} {db : Db}

theorem filterMap_snoc_none {α : Type} {f : Record → Option α} (h : f r = none) :
    (rs ++ [r]).filterMap f = rs.filterMap f := by
  rw [List.filterMap_append, List.filterMap_cons_none h, List.filterMap_nil, List.append_nil]

theorem run_record (ht : ∀ t, t ∈ db.tables) (r : Record) : (r.stmt.run F db).2 = r.stmt.effect F db := by
  have hs : r.stmt.succeeds F db = true := by
    cases r <;> simp [Record.stmt, Stmt.succeeds, ht]
  unfold Stmt.run
  rw [if_pos hs]

/-- **A record apart from those before it adds its row.** -/
theorem RowsOf.snoc (hF : F.LawfulIds) (h : RowsOf F rs db) (hr : ∀ r' ∈ rs, r'.Apart r) :
    RowsOf F (rs ++ [r]) (r.stmt.run F db).2 := by
  obtain ⟨ht, hp, hi, hs, hterm, hb⟩ := h
  rw [run_record ht]
  cases r with
  | policy p =>
    refine ⟨ht, ?_, by rw [filterMap_snoc_none rfl]; exact hi, by rw [filterMap_snoc_none rfl]; exact hs, hterm, hb⟩
    rw [List.filterMap_append]
    show replaceRow (·.dogId) (policyRow F p) db.dogPolicy = _
    rw [hp]
    refine replaceRow_new (fun p' hp' hkey => ?_)
    exact hr _ (Record.mem_policies.1 hp') (congrArg DogId.mk (hF.uuid_inj.1 hkey))
  | invite inv =>
    refine ⟨ht, by rw [filterMap_snoc_none rfl]; exact hp, ?_, by rw [filterMap_snoc_none rfl]; exact hs, hterm, hb⟩
    rw [List.filterMap_append]
    show replaceRow (·.inviteId) (inviteRow F inv) db.invites = _
    rw [hi]
    refine replaceRow_new (fun inv' hinv' hkey => ?_)
    exact (hr _ (Record.mem_invites.1 hinv')).1 (congrArg InviteId.mk (hF.uuid_inj.1 hkey))
  | session v =>
    refine ⟨ht, by rw [filterMap_snoc_none rfl]; exact hp, by rw [filterMap_snoc_none rfl]; exact hi, ?_, hterm, hb⟩
    rw [List.filterMap_append]
    show replaceRow (·.sessionId) (Saved.row F v) db.sessions = _
    rw [hs]
    refine replaceRow_new (fun v' hv' hkey => ?_)
    exact (hr _ (Record.mem_sessions.1 hv')).1 (congrArg SessionId.mk (hF.uuid_inj.1 hkey))

/-- **Writing the records leaves their rows.** -/
theorem rowsOf_written (hF : F.LawfulIds) : ∀ (rs done : List Record) {db : Db}, RowsOf F done db →
    (done ++ rs).Pairwise Record.Apart → RowsOf F (done ++ rs) (written F rs db)
  | [], done, _, h, _ => by rwa [List.append_nil]
  | r :: rs, done, _, h, hp => by
    have hr : ∀ r' ∈ done, r'.Apart r := fun r' hr' => (List.pairwise_append.1 hp).2.2 r' hr' r List.mem_cons_self
    rw [List.append_cons] at hp ⊢
    exact rowsOf_written hF rs (done ++ [r]) (h.snoc hF hr) hp

end

/-! ## The stores -/

/-- What a store loaded from the policies `ps` has. -/
def PoliciesOf (s : PolicyStore) (ps : List DogPolicy) : Prop :=
  ∀ d p, s.byDog.lookup d = some p ↔ p ∈ ps ∧ p.dogId = d

theorem PoliciesOf.snoc {s : PolicyStore} {ps : List DogPolicy} {p : DogPolicy} (h : PoliciesOf s ps)
    (hp : ∀ p' ∈ ps, p'.dogId ≠ p.dogId) : PoliciesOf (s.set p) (ps ++ [p]) := by
  intro d q
  show (AList.insert p.dogId p s.byDog).lookup d = some q ↔ _
  rw [HashMap.lookup_insert]
  simp only [List.mem_append, List.mem_singleton]
  split
  · rename_i hd
    rw [Option.some_inj]
    constructor
    · rintro rfl
      exact ⟨.inr rfl, hd.symm⟩
    · rintro ⟨hq | rfl, hid⟩
      · exact absurd (hid.trans hd) (hp q hq)
      · rfl
  · rename_i hd
    rw [h]
    constructor
    · exact fun ⟨hq, hid⟩ => ⟨.inl hq, hid⟩
    · rintro ⟨hq | rfl, hid⟩
      · exact ⟨hq, hid⟩
      · exact absurd hid.symm hd

/-- **The loop loads every policy**, if no two are of one dog. -/
theorem PoliciesOf.loop {F : Formats} (hF : F.LawfulIds) {ps : List DogPolicy}
    (hp : ps.Pairwise (fun p p' => p.dogId ≠ p'.dogId)) :
    ∃ s, (ps.map (policyRow F)).foldlM (loadPolicy F) {} = some s ∧ PoliciesOf s ps := by
  refine foldlM_rows (fun s ps p h hp => ⟨_, ?_, h.snoc hp⟩) ps [] (fun d p => ?_) hp
  · unfold loadPolicy
    rw [policyOfRow_policyRow hF]
    rfl
  · exact iff_of_false (fun h => by cases h) (fun h => absurd h.1 List.not_mem_nil)

/-- The index of the reopened invites names the invites of each dog. -/
theorem Reopened.indexed {s : InviteStore} {invs : List Invite} (h : Reopened s invs) (hc : s.Consistent) {d : DogId}
    {k : InviteId} : s.openForDog.lookup d = some k ↔ ∃ inv ∈ invs, inv.id = k ∧ inv.hasDog d := by
  constructor
  · intro hk
    obtain ⟨inv, hinv, hd⟩ := h.openForDog hk
    have hid := hc.indexed (h.get.2 ⟨hinv, rfl⟩) hd
    exact ⟨inv, hinv, Option.some.inj (hid.symm.trans hk), hd⟩
  · rintro ⟨inv, hinv, rfl, hd⟩
    exact hc.indexed (h.get.2 ⟨hinv, rfl⟩) hd

/-- A sound session is loaded as it was written, with its flags. -/
theorem Record.Sound.loads {v : Saved} (h : (Record.session v).Sound) :
    v.flags = ⟨v.mediaA, v.mediaB⟩ ∧ SessionStore.promote v.flags v.session = v.session := by
  have hflags : v.flags = ⟨v.mediaA, v.mediaB⟩ := if_neg h.1
  refine ⟨hflags, ?_⟩
  rw [hflags]
  unfold SessionStore.promote
  split
  · rename_i hboth
    obtain ⟨ha, hb⟩ := Bool.and_eq_true_iff.1 hboth
    rw [← h.2 ha hb]
  · rfl

section

variable {F : Formats} {rs : List Record} {db : Db}

/-- **The rows load into the records.** -/
theorem RowsOf.load (hF : F.LawfulIds) (now : DateTime) (h : RowsOf F rs db) (hp : rs.Pairwise Record.Apart)
    (hs : ∀ r ∈ rs, r.Sound) (hd : ∀ r ∈ rs, ∀ t ∈ r.dates, F.ReadsBack t) :
    ∃ data, loadInto F now db {} = some data ∧ data.Of rs := by
  obtain ⟨policies, hpolicies, hpoliciesOf⟩ := PoliciesOf.loop hF
    (hp.filterMap Record.policy?
      (fun r r' hr p hp p' hp' => by cases r <;> cases r' <;> cases hp <;> cases hp'; exact hr))
  obtain ⟨invites, hinvites, hreopened⟩ := Reopened.loop hF now
    (hp.filterMap Record.invite?
      (fun r r' hr p hp p' hp' => by cases r <;> cases r' <;> cases hp <;> cases hp'; exact hr))
  obtain ⟨sessions, hsessions, hrestored⟩ := Restored.loop hF now
    (hp.filterMap Record.session?
      (fun r r' hr p hp p' hp' => by cases r <;> cases r' <;> cases hp <;> cases hp'; exact hr))
  have hconsistent := loadInvites_consistent hinvites
  -- the dates read back, so what is reread is what was written
  rw [List.map_congr_left (fun inv hinv => Invite.reread_eq (hd _ (Record.mem_invites.1 hinv)) now), List.map_id']
    at hreopened
  rw [List.map_congr_left (fun v hv => Saved.reread_eq (hd _ (Record.mem_sessions.1 hv)) now), List.map_id']
    at hrestored
  have hloads : ∀ {v : Saved}, v ∈ rs.filterMap Record.session? →
      v.flags = ⟨v.mediaA, v.mediaB⟩ ∧ SessionStore.promote v.flags v.session = v.session :=
    fun hv => (hs _ (Record.mem_sessions.1 hv)).loads
  refine ⟨{ policies, invites, sessions }, ?_, ?_⟩
  · unfold loadInto
    rw [if_neg (not_not.2 (fun t _ => h.tables t)), h.dogPolicy, h.terminals, h.bonds, h.invites, h.sessions, hpolicies,
      hinvites, hsessions]
    rfl
  · constructor
    · intro d p
      rw [hpoliciesOf, Record.mem_policies]
    · intro k inv
      rw [hreopened.get, Record.mem_invites]
    · intro d k
      rw [hreopened.indexed hconsistent]
      simp only [Record.mem_invites]
    · intro k x
      rw [hrestored.get]
      constructor
      · rintro ⟨v, hv, hid, rfl⟩
        rw [(hloads hv).2]
        exact ⟨v.mediaA, v.mediaB, Record.mem_sessions.1 hv, hid⟩
      · rintro ⟨ma, mb, hv, hid⟩
        have hv := Record.mem_sessions.2 hv
        exact ⟨_, hv, hid, (hloads hv).2⟩
    · intro d k
      rw [hrestored.byDog]
      simp only [Record.mem_sessions]
    · intro k e
      rw [hrestored.media]
      constructor
      · rintro ⟨v, hv, hid, rfl⟩
        rw [(hloads hv).1]
        exact ⟨v.session, Record.mem_sessions.1 hv, hid⟩
      · rintro ⟨x, hv, hid⟩
        have hv := Record.mem_sessions.2 hv
        exact ⟨_, hv, hid, (hloads hv).1⟩

end

/-- **Loading undoes saving**, for every row type: policies, invites and sessions written in any order into the empty
tables of the full schema load, whenever, into exactly those policies, invites, sessions and flags, if the texts of
their ids and instants read back. -/
theorem load_undoes_save (F : Formats) (hF : F.LawfulIds) (now : DateTime) (tables : List Table) (ht : ∀ t, t ∈ tables)
    (rs : List Record) (hp : rs.Pairwise Record.Apart) (hs : ∀ r ∈ rs, r.Sound)
    (hd : ∀ r ∈ rs, ∀ t ∈ r.dates, F.ReadsBack t) :
    ∃ data, loadInto F now (written F rs { tables }) {} = some data ∧ data.Of rs :=
  (rowsOf_written hF rs [] ⟨ht, rfl, rfl, rfl, rfl, rfl⟩ hp).load hF now hp hs hd

/-- A policy with the longest durations, and the first session with both sides ready. -/
def someRecords : List Record :=
  [.policy { DogPolicy.defaultFor ⟨1⟩ with maxSessionSec := 18446744073709551615, utcOffsetMin := -300 },
   .session ⟨{ firstSession with state := .active }, true, true⟩]

theorem load_undoes_save_some :
    ∃ data, loadInto decimals noon (written decimals someRecords { tables := allTables }) {} = some data ∧
      data.Of someRecords :=
  load_undoes_save decimals decimals_lawful.toLawfulIds noon allTables mem_allTables someRecords
    (by simp [someRecords, Record.Apart]) (by simp [someRecords, Record.Sound, firstSession])
    (fun r hr t ht => decimals_lawful.parse_rfc3339 t ((by decide : ∀ r ∈ someRecords, ∀ t ∈ r.dates, t.FourDigitYear)
      r hr t ht))

end CanisLink
