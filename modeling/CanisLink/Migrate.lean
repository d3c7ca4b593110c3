import CanisLink.PolicyKept
/-!
# Migrate — the schema script and what it leaves

`migrate` cuts the script at the semicolons and skips every piece that begins with a comment.  The script begins with
one, so the piece with the table `dogs` is skipped; every later `save_enroll` fails at its first statement, and a
restart finds no terminal bound.
-/
namespace CanisLink

open Interleave (Prog)
open Api

/-! ## The script -/

/-- `001_init.sql`. -/
def initSql : String := "-- CanisLink durable store (SQLite for lab kit - Postgres later)

CREATE TABLE IF NOT EXISTS dogs (
    dog_id TEXT PRIMARY KEY NOT NULL,
    created_at TEXT NOT NULL DEFAULT (datetime('now'))
);

CREATE TABLE IF NOT EXISTS terminals (
    terminal_id TEXT PRIMARY KEY NOT NULL,
    dog_id TEXT NOT NULL REFERENCES dogs(dog_id),
    token_hash TEXT NOT NULL,
    created_at TEXT NOT NULL DEFAULT (datetime('now'))
);

CREATE TABLE IF NOT EXISTS bonds (
    dog_a TEXT NOT NULL,
    dog_b TEXT NOT NULL,
    weight REAL NOT NULL,
    PRIMARY KEY (dog_a, dog_b)
);

CREATE TABLE IF NOT EXISTS dog_policy (
    dog_id TEXT PRIMARY KEY NOT NULL,
    timezone TEXT NOT NULL DEFAULT 'UTC',
    sleep_start_min INTEGER NOT NULL DEFAULT 1320,
    sleep_end_min INTEGER NOT NULL DEFAULT 420,
    utc_offset_min INTEGER NOT NULL DEFAULT 0,
    emergency_stop INTEGER NOT NULL DEFAULT 0,
    social_disabled INTEGER NOT NULL DEFAULT 0,
    max_invites_per_hour INTEGER NOT NULL DEFAULT 12,
    max_session_sec INTEGER NOT NULL DEFAULT 900,
    segment_sec INTEGER NOT NULL DEFAULT 300
);

CREATE TABLE IF NOT EXISTS presence (
    dog_id TEXT PRIMARY KEY NOT NULL,
    terminal_id TEXT NOT NULL,
    present INTEGER NOT NULL,
    confidence REAL NOT NULL,
    force_band TEXT NOT NULL,
    force_n REAL NOT NULL DEFAULT 0,
    tof_mm INTEGER,
    last_seen TEXT NOT NULL,
    seq INTEGER NOT NULL
);

CREATE TABLE IF NOT EXISTS invites (
    invite_id TEXT PRIMARY KEY NOT NULL,
    from_dog TEXT NOT NULL,
    to_dog TEXT NOT NULL,
    mode TEXT NOT NULL,
    state TEXT NOT NULL,
    created_at TEXT NOT NULL,
    expires_at TEXT NOT NULL
);

CREATE TABLE IF NOT EXISTS invite_events (
    id INTEGER PRIMARY KEY AUTOINCREMENT,
    dog_id TEXT NOT NULL,
    at TEXT NOT NULL
);

CREATE TABLE IF NOT EXISTS sessions (
    session_id TEXT PRIMARY KEY NOT NULL,
    invite_id TEXT NOT NULL,
    dog_a TEXT NOT NULL,
    dog_b TEXT NOT NULL,
    mode TEXT NOT NULL,
    state TEXT NOT NULL,
    started_at TEXT NOT NULL,
    max_end_at TEXT NOT NULL,
    segment_deadline_at TEXT NOT NULL,
    media_a INTEGER NOT NULL DEFAULT 0,
    media_b INTEGER NOT NULL DEFAULT 0
);

CREATE INDEX IF NOT EXISTS idx_invites_from ON invites(from_dog);
CREATE INDEX IF NOT EXISTS idx_invites_to ON invites(to_dog);
CREATE INDEX IF NOT EXISTS idx_sessions_dogs ON sessions(dog_a, dog_b);
CREATE INDEX IF NOT EXISTS idx_invite_events_dog ON invite_events(dog_id, at);
"

def isWordChar (c : Char) : Bool := c.isAlphanum || decide (c = '_')

/-- A word that has been read up to here, as a token. -/
def flush (word : List Char) : List String := if word = [] then [] else [String.ofList word]

/-- The tokens of a statement: words and single signs; a comment runs from `--` to the end of its line. -/
def sqlTokens : Bool → List Char → List Char → List String
  | _, word, [] => flush word
  | true, word, c :: cs => sqlTokens (decide (c ≠ '\n')) word cs
  | false, word, '-' :: '-' :: cs => flush word ++ sqlTokens true [] cs
  | false, word, c :: cs =>
    if isWordChar c then sqlTokens false (word ++ [c]) cs
    else flush word ++ (if c.isWhitespace then [] else [String.singleton c]) ++ sqlTokens false [] cs

def tableNamed (name : String) : Option Table :=
  if name = "dogs" then some .dogs
  else if name = "terminals" then some .terminals
  else if name = "bonds" then some .bonds
  else if name = "dog_policy" then some .dogPolicy
  else if name = "presence" then some .presence
  else if name = "invites" then some .invites
  else if name = "invite_events" then some .inviteEvents
  else if name = "sessions" then some .sessions
  else none

/-- The statements of the script. -/
inductive Ddl
  | createTable (t : Table)
  | createIndex (on : Table)
deriving DecidableEq

def parseDdl : List String → Option Ddl
  | "CREATE" :: "TABLE" :: "IF" :: "NOT" :: "EXISTS" :: name :: _ => (tableNamed name).map .createTable
  | "CREATE" :: "INDEX" :: "IF" :: "NOT" :: "EXISTS" :: _ :: "ON" :: name :: _ => (tableNamed name).map .createIndex
  | _ => none

def withTable (tables : List Table) (t : Table) : List Table := if t ∈ tables then tables else tables ++ [t]

theorem mem_withTable {tables : List Table} {t t' : Table} : t' ∈ withTable tables t ↔ t' ∈ tables ∨ t' = t := by
  unfold withTable
  split
  · rename_i h
    exact ⟨.inl, fun ht => ht.elim id (fun e => e ▸ h)⟩
  · rw [List.mem_append, List.mem_singleton]

/-- Runs a statement, as SQLite does: an index needs its table, a foreign key does not need the table it refers to
until a row is written. -/
def Ddl.execute (db : Db) : Ddl → Option Db
  | createTable t => some { db with tables := withTable db.tables t }
  | createIndex t => if t ∈ db.tables then some db else none

/-- `sqlx::query(stmt).execute(pool)` of a statement of the script; `none` where it returns an error. -/
def execute (db : Db) (stmt : List Char) : Option Db := (parseDdl (sqlTokens false [] stmt)).bind (·.execute db)

def trim (s : List Char) : List Char := ((s.dropWhile Char.isWhitespace).reverse.dropWhile Char.isWhitespace).reverse

/-- The pieces that the loop of `migrate` does not skip. -/
def statements (sql : String) : List (List Char) :=
  ((sql.toList.splitOn ';').map trim).filter (fun stmt => !(stmt.isEmpty || ['-', '-'].isPrefixOf stmt))

def migrate (db : Db) : Option Db := (statements initSql).foldlM execute db

/-! ## What it leaves -/

set_option maxRecDepth 20000 in
/-- **The script as `migrate` reads it**: every table but `dogs`. -/
theorem statements_initSql : (statements initSql).map (fun stmt => parseDdl (sqlTokens false [] stmt)) =
    [some (.createTable .terminals), some (.createTable .bonds), some (.createTable .dogPolicy),
      some (.createTable .presence), some (.createTable .invites), some (.createTable .inviteEvents),
      some (.createTable .sessions), some (.createIndex .invites), some (.createIndex .invites),
      some (.createIndex .sessions), some (.createIndex .inviteEvents)] := by
  unfold statements initSql
  rw [String.toList_ofList]
  decide +kernel

theorem migrate_eq_foldlM (db : Db) :
    migrate db = ((statements initSql).map (fun stmt => parseDdl (sqlTokens false [] stmt))).foldlM
      (fun (db : Db) ddl => ddl.bind (·.execute db)) db := by
  unfold migrate
  generalize statements initSql = stmts
  rw [List.foldlM_map]
  rfl

/-- **`migrate` never fails, and adds every table but `dogs`.** -/
theorem migrate_adds (db : Db) : ∃ tables, migrate db = some { db with tables } ∧
    ∀ t, t ∈ tables ↔ t ∈ db.tables ∨ t ≠ .dogs := by
  rw [migrate_eq_foldlM, statements_initSql]
  simp only [List.foldlM_cons, List.foldlM_nil, Option.bind_eq_bind, Option.bind_some, Ddl.execute, mem_withTable,
    or_true, if_true, reduceCtorEq, or_false]
  refine ⟨_, rfl, fun t => ?_⟩
  simp only [mem_withTable]
  cases t <;> simp

/-! ## Enrolments -/

/-- The enrolments of a run, in order. -/
def enrolments (st : AppState) : Server → List Arrival → List (TerminalId × DogId)
  | _, [] => []
  | s, a :: as => (enrolment s a).toList ++ enrolments st (s.serve st a) as

/-- The dog of a terminal's latest enrolment. -/
def enrolledDog (st : AppState) (s : Server) (as : List Arrival) (t : TerminalId) : Option DogId :=
  Keyed.last some t (enrolments st s as)

/-- Each terminal is bound to the dog of its latest enrolment. -/
def Rebinds (st : AppState) (s : Server) (as : List Arrival) (data : AppData) : Prop :=
  ∀ t d, enrolledDog st s as t = some d → data.policies.terminalDog.lookup t = some d

/-- The tables that `open` leaves and no terminal in them. -/
structure Db.Unbound (F : Formats) (db : Db) : Prop where
  legible : db.Legible F
  tables : ∀ t, t ∈ db.tables ↔ t ≠ .dogs
  terminals : db.terminals = []

section

variable {st : AppState}

/-- No statement writes a terminal without the table `dogs`. -/
theorem Db.Unbound.run {F : Formats} (hF : F.LawfulIds) {db : Db} (h : db.Unbound F) (q : Stmt) :
    (q.run F db).2.Unbound F := by
  refine ⟨h.legible.run hF q, fun t => by rw [run_tables]; exact h.tables t, ?_⟩
  cases hq : q.succeeds F db with
  | false => rw [Stmt.run, if_neg (by rw [hq]; decide)]; exact h.terminals
  | true =>
    have hdogs : Table.dogs ∉ db.tables := fun ht => (h.tables _).1 ht rfl
    rw [Stmt.run, if_pos hq]
    cases q with
    | saveTerminal t d hash => simp [Stmt.succeeds, hdogs] at hq
    | insertDog d => simp only [Stmt.effect]; split <;> exact h.terminals
    | _ => exact h.terminals

theorem serveAll_unbound (hF : st.formats.LawfulIds) : ∀ (as : List Arrival) {s : Server},
    s.world.db.Unbound st.formats → (s.serveAll st as).world.db.Unbound st.formats
  | [], _, h => h
  | a :: as, s, h => by
    refine serveAll_unbound hF as (Server.serve_inv (I := fun w => w.db.Unbound st.formats) (fun c _ t w hw => ?_) h)
    rw [exec_db]
    cases c with
    | sql q => exact hw.run hF q
    | _ => exact hw

/-- **`open` on an empty database.** -/
theorem migrate_empty {F : Formats} {db : Db} (h : migrate { tables := [] } = some db) : db.Unbound F := by
  obtain ⟨tables, hm, ht⟩ := migrate_adds { tables := [] }
  cases hm.symm.trans h
  exact ⟨legible_empty F tables, fun t => (ht t).trans (or_iff_right List.not_mem_nil), rfl⟩

/-- **`open` and `load_into` on what `open` has left** bind no terminal. -/
theorem Db.Unbound.reopen {F : Formats} {db : Db} (h : db.Unbound F) (now : DateTime) :
    ∃ db' data, migrate db = some db' ∧ loadInto F now db' {} = some data ∧
      ∀ t, data.policies.terminalDog.lookup t = none := by
  obtain ⟨tables, hm, ht⟩ := migrate_adds db
  obtain ⟨data, hd, -⟩ := @loadInto_legible F { db with tables }
    ⟨h.legible.dogPolicy, h.legible.terminals, h.legible.bonds, h.legible.invites, h.legible.sessions⟩
    (fun t hload => (ht t).2 (.inr (fun e => by subst e; exact absurd hload (by decide)))) now
  refine ⟨_, data, hm, hd, fun t => ?_⟩
  obtain ⟨⟨policies, hrows, hbound⟩, -⟩ := loadInto_loops hd
  have hterminals : some policies = some data.policies := by rw [← hbound, h.terminals]; rfl
  cases hterminals
  refine foldlM_inv (I := fun s : PolicyStore => s.terminalDog.lookup t = none) (fun s r s' hs e => ?_) rfl hrows
  obtain ⟨p, -, e⟩ := Option.bind_eq_some_iff.1 e
  cases e
  exact hs

/-- A run with an enrolment has a terminal's latest one. -/
theorem exists_enrolledDog {s : Server} {as : List Arrival} (h : enrolments st s as ≠ []) :
    ∃ t d, enrolledDog st s as t = some d := by
  obtain ⟨es, e, he⟩ := (List.eq_nil_or_concat _).resolve_left h
  refine ⟨e.1, e.2, ?_⟩
  unfold enrolledDog
  rw [he, List.concat_eq_append, Keyed.last_snoc, Keyed.entry_some (show some e = some (e.1, e.2) from rfl),
    if_pos rfl]
  rfl

end

/-- **A restart rebinds the enrolled terminals exactly if there are none**: on a database that `open` has made, over
every run. -/
theorem enrolments_durable_iff (st : AppState) (hF : st.formats.LawfulIds) (db : Db) (t₀ : DateTime) (n : Uuid)
    (s : Server) (as : List Arrival) (hopen : migrate { tables := [] } = some db)
    (hs : Server.started st t₀ db n = some s) (now : DateTime) :
    (∃ db' data, migrate (s.serveAll st as).world.db = some db' ∧ loadInto st.formats now db' {} = some data ∧
      Rebinds st s as data) ↔ enrolments st s as = [] := by
  have hstart : s.world.db = db := by
    obtain ⟨data, -, rfl⟩ := Option.map_eq_some_iff.1 hs
    rfl
  have hunbound : s.world.db.Unbound st.formats := hstart ▸ migrate_empty hopen
  obtain ⟨db', data, hm, hd, hnone⟩ := (serveAll_unbound hF as hunbound).reopen now
  constructor
  · rintro ⟨db'', data', hm', hd', hbinds⟩
    cases hm.symm.trans hm'
    cases hd.symm.trans hd'
    by_contra hsome
    obtain ⟨t, d, h⟩ := exists_enrolledDog hsome
    cases (hnone t).symm.trans (hbinds t d h)
  · intro hnil
    refine ⟨db', data, hm, hd, fun t d h => ?_⟩
    unfold enrolledDog at h
    rw [hnil] at h
    cases h

/-- What `open` makes of an empty database. -/
def opened : Db := { tables := [.terminals, .bonds, .dogPolicy, .presence, .invites, .inviteEvents, .sessions] }

theorem migrate_opened : migrate { tables := [] } = some opened := by
  rw [migrate_eq_foldlM, statements_initSql]
  rfl

/-- Dog 1 is enrolled at terminal 1. -/
def enroll1 : Arrival := ⟨.devEnroll (some ⟨1⟩) (some ⟨1⟩), fun _ => noon⟩

theorem enrolments_durable_iff_one : ¬ ∃ db' data,
    migrate (Server.serveAll bench ⟨{ db := opened }, noon⟩ [enroll1]).world.db = some db' ∧
      loadInto decimals noon db' {} = some data ∧ Rebinds bench ⟨{ db := opened }, noon⟩ [enroll1] data :=
  mt (enrolments_durable_iff bench decimals_lawful.toLawfulIds opened noon 0 ⟨{ db := opened }, noon⟩ [enroll1]
    migrate_opened rfl noon).1 (by decide)

/-- **An enrolment is lost**: its first statement fails, and after a restart the terminal is bound to no dog. -/
theorem enrolment_lost : ¬ ∀ (st : AppState) (db : Db) (t₀ : DateTime) (n : Uuid) (s : Server) (as : List Arrival)
    (now : DateTime), st.pool = true → st.formats.LawfulIds → migrate { tables := [] } = some db →
    Server.started st t₀ db n = some s → (∀ a ∈ as, a.req.isEnroll = true) →
    ∃ db' data, migrate (s.serveAll st as).world.db = some db' ∧ loadInto st.formats now db' {} = some data ∧
      Rebinds st s as data := by
  intro h
  obtain ⟨db', data, hm, hd, hbinds⟩ := h bench opened noon 0 ⟨{ db := opened }, noon⟩ [enroll1] noon rfl
    decimals_lawful.toLawfulIds migrate_opened rfl (by decide)
  have hunbound : (Server.serveAll bench ⟨{ db := opened }, noon⟩ [enroll1]).world.db.Unbound bench.formats :=
    serveAll_unbound decimals_lawful.toLawfulIds [enroll1] (migrate_empty migrate_opened)
  obtain ⟨db'', data', hm', hd', hnone⟩ := hunbound.reopen noon
  cases hm.symm.trans hm'
  cases hd.symm.trans hd'
  cases (hnone ⟨1⟩).symm.trans (hbinds ⟨1⟩ ⟨1⟩ (by decide))

end CanisLink
