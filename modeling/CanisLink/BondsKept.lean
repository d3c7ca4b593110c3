import CanisLink.Keyed
import CanisLink.Restart
import Mathlib.Data.Sym.Sym2
/-!
# BondsKept — when a restart gives the bonds back

A bond request raises the weight to `W_MIN` in memory and stores the weight of the request in the table.  What counts
on both sides is the last request for a pair of dogs, so a restart gives the bonds back exactly if the last request of
every pair has at least `W_MIN`.
-/
namespace CanisLink

open Interleave (Prog)
open Api

/-! ## The last bond of a pair -/

/-- The bond a request makes, if it is let in. -/
def bondOf (st : AppState) : Request → Option (DogId × DogId × Rat)
  | .devBootstrapBond a b w => some (a, b, w)
  | .stewardBonds h a b w => (verifySteward st h).toOption.map (fun _ => (a, b, w))
  | _ => none

/-- An arrival, read under the two dogs it bonds. -/
def bondRead (st : AppState) (a : Arrival) : Option (Sym2 DogId × Rat) :=
  (bondOf st a.req).map (fun b => (s(b.1, b.2.1), b.2.2))

/-- The weight of the last request that bonds two dogs. -/
def lastBond (st : AppState) (as : List Arrival) (x y : DogId) : Option Rat := Keyed.last (bondRead st) s(x, y) as

/-- What is stored under both orders of a pair is found under either. -/
theorem ite_pair {α : Type} (a b x y : DogId) (u v : α) :
    (if (x, y) = (b, a) then u else if (x, y) = (a, b) then u else v) = if s(a, b) = s(x, y) then u else v := by
  by_cases h : s(a, b) = s(x, y)
  · rw [if_pos h]
    rcases Sym2.eq_iff.1 h with ⟨rfl, rfl⟩ | ⟨rfl, rfl⟩
    · rw [if_pos rfl, ite_self]
    · rw [if_pos rfl]
  · rw [if_neg h, if_neg, if_neg]
    · rintro ⟨⟩
      exact h rfl
    · rintro ⟨⟩
      exact h Sym2.eq_swap

namespace BondGraph

/-- The weight `bootstrap_mutual` sets. -/
def raised (w : Rat) : Rat := max (clamp w) W_MIN

theorem clamp_raised (w : Rat) : clamp (raised w) = raised w := by
  have hmin : (0 : Rat) ≤ W_MIN := by decide +kernel
  have hmax : W_MIN ≤ 1 := by decide +kernel
  have hle : raised w ≤ 1 := max_le (max_le zero_le_one (min_le_right w 1)) hmax
  have hnonneg : 0 ≤ raised w := le_trans hmin (le_max_right _ _)
  unfold clamp
  rw [min_eq_left hle, max_eq_right hnonneg]

/-- **Raising changes nothing exactly from `W_MIN` on.** -/
theorem clamp_eq_raised {w : Rat} : clamp w = raised w ↔ W_MIN ≤ w := by
  have hmin : 0 < W_MIN := by decide +kernel
  have hmax : W_MIN ≤ 1 := by decide +kernel
  have hclamp : W_MIN ≤ clamp w ↔ W_MIN ≤ w := by
    unfold clamp
    rw [le_max_iff, le_min_iff]
    exact ⟨fun h => h.elim (fun h => absurd h (not_le.2 hmin)) And.left, fun h => .inr ⟨h, hmax⟩⟩
  rw [← hclamp]
  unfold raised
  exact left_eq_sup

theorem lookup_setWeight (g : BondGraph) (a b : DogId) (w : Rat) (x y : DogId) :
    (g.setWeight a b w).edges.lookup (x, y) = if (x, y) = (a, b) then some (clamp w) else g.edges.lookup (x, y) :=
  HashMap.lookup_insert _ _ _ _

theorem lookup_bootstrapMutual (g : BondGraph) (a b : DogId) (w : Rat) (x y : DogId) :
    (g.bootstrapMutual a b w).edges.lookup (x, y) =
      if s(a, b) = s(x, y) then some (raised w) else g.edges.lookup (x, y) := by
  unfold bootstrapMutual
  rw [lookup_setWeight, lookup_setWeight]
  show (if _ then some (clamp (raised w)) else if _ then some (clamp (raised w)) else _) = _
  rw [clamp_raised]
  exact ite_pair a b x y _ _

/-- Two graphs that route the same invites. -/
structure Same (g g' : BondGraph) : Prop where
  weight : ∀ x y, g.weight x y = g'.weight x y
  eligible : ∀ x y, g.mutualEligible x y = g'.mutualEligible x y
  candidates : ∀ ord ord' x, (g.candidates ord x).Perm (g'.candidates ord' x)

theorem mem_candidates {ord : IterOrder} {g : BondGraph} {x y : DogId} {w : Rat} :
    (y, w) ∈ g.candidates ord x ↔ g.weight x y = w ∧ W_MIN ≤ w ∧ W_MIN ≤ g.weight y x := by
  have hmin : 0 < W_MIN := by decide +kernel
  unfold candidates
  rw [(List.perm_insertionSort _ _).mem_iff, List.mem_filterMap]
  constructor
  · rintro ⟨⟨⟨x', y'⟩, w'⟩, he, hsome⟩
    rw [ord.mem_visit] at he
    split at hsome
    · rename_i hcond
      obtain ⟨rfl, hw, hback⟩ := hcond
      cases hsome
      refine ⟨?_, hw, hback⟩
      show (g.edges.lookup (x', y')).getD 0 = w'
      rw [AList.mem_lookup_iff.2 he]
      rfl
    · cases hsome
  · rintro ⟨hxy, hw, hback⟩
    cases hl : g.edges.lookup (x, y) with
    | none =>
      have hzero : g.weight x y = 0 := by
        show (g.edges.lookup (x, y)).getD 0 = 0
        rw [hl]
        rfl
      exact absurd (lt_of_lt_of_le hmin hw) (by rw [← hxy, hzero]; exact lt_irrefl 0)
    | some w' =>
      have hw' : g.weight x y = w' := by
        show (g.edges.lookup (x, y)).getD 0 = w'
        rw [hl]
        rfl
      cases hxy.symm.trans hw'
      exact ⟨⟨(x, y), w⟩, (ord.mem_visit).2 (AList.mem_lookup_iff.1 hl), if_pos ⟨rfl, hw, hback⟩⟩

theorem nodup_candidates (ord : IterOrder) (g : BondGraph) (x : DogId) : (g.candidates ord x).Nodup := by
  unfold candidates
  rw [(List.perm_insertionSort _ _).nodup_iff]
  refine List.Nodup.filterMap ?_ ((ord.perm _).nodup_iff.2 g.edges.nodupKeys.nodup)
  rintro ⟨⟨x₁, y₁⟩, w₁⟩ ⟨⟨x₂, y₂⟩, w₂⟩ b h₁ h₂
  simp only [Option.mem_def] at h₁ h₂
  split at h₁
  · split at h₂
    · rename_i hc₁ hc₂
      obtain ⟨rfl, -⟩ := hc₁
      obtain ⟨rfl, -⟩ := hc₂
      cases h₁
      cases h₂
      rfl
    · cases h₂
  · cases h₁

/-- **The weights decide the rest.** -/
theorem Same.of_weight {g g' : BondGraph} (h : ∀ x y, g.weight x y = g'.weight x y) : g.Same g' where
  weight := h
  eligible x y := by
    unfold mutualEligible
    rw [h, h]
  candidates ord ord' x := by
    refine (List.perm_ext_iff_of_nodup (nodup_candidates ord g x) (nodup_candidates ord' g' x)).2 (fun e => ?_)
    rw [mem_candidates, mem_candidates, h, h]

end BondGraph

/-! ## The bonds of the table -/

section

variable {F : Formats}

/-- A bond row as `load_into` takes it in. -/
def bondEntry (F : Formats) (r : BondRow) : Option ((DogId × DogId) × Rat) := do
  let a ← F.parseUuid r.dogA
  let b ← F.parseUuid r.dogB
  return ((⟨a⟩, ⟨b⟩), BondGraph.clamp r.weight)

/-- The edges after `load_into`: the last row of each. -/
theorem load_bonds {now : DateTime} {db : Db} {data : AppData} (h : loadInto F now db {} = some data) (x y : DogId) :
    data.bonds.edges.lookup (x, y) = Keyed.last (bondEntry F) (x, y) db.bonds := by
  obtain ⟨-, h, -⟩ := loadInto_loops h
  refine (Keyed.view_foldlM (fun g : BondGraph => g.edges.lookup (x, y)) (fun g r g' hg => ?_) h).trans
    (Option.or_none ..)
  obtain ⟨a, ha, hg⟩ := Option.bind_eq_some_iff.1 hg
  obtain ⟨b, hb, hg⟩ := Option.bind_eq_some_iff.1 hg
  cases hg
  rw [BondGraph.lookup_setWeight, Keyed.entry_some (by rw [bondEntry, ha, hb]; rfl)]
  by_cases hxy : (x, y) = (⟨a⟩, ⟨b⟩)
  · rw [if_pos hxy, if_pos hxy.symm]; rfl
  · rw [if_neg hxy, if_neg (Ne.symm hxy)]; rfl

theorem last_saveBond (hF : F.LawfulIds) (rows : List BondRow) (a b : DogId) (w : Rat) (x y : DogId) :
    Keyed.last (bondEntry F) (x, y)
        (replaceRow (fun r : BondRow => (r.dogA, r.dogB)) ⟨F.uuid a.uuid, F.uuid b.uuid, w⟩ rows) =
      if (x, y) = (a, b) then some (BondGraph.clamp w) else Keyed.last (bondEntry F) (x, y) rows := by
  have hread : ∀ r : BondRow, (r.dogA, r.dogB) = (F.uuid a.uuid, F.uuid b.uuid) →
      bondEntry F r = some ((a, b), BondGraph.clamp r.weight) := by
    rintro ⟨dogA, dogB, w'⟩ h
    obtain ⟨rfl, rfl⟩ := Prod.mk.inj h
    simp only [bondEntry, hF.parse_uuid]
    rfl
  have hentry := Keyed.entry_some (k := (x, y)) (hread ⟨F.uuid a.uuid, F.uuid b.uuid, w⟩ rfl)
  unfold replaceRow
  rw [Keyed.last_upsert (fun r _ hr he => ?_), hentry]
  · by_cases hxy : (x, y) = (a, b)
    · rw [if_pos hxy, if_pos hxy.symm]; rfl
    · rw [if_neg hxy, if_neg (Ne.symm hxy)]; rfl
  · rw [hentry] at he
    rw [Keyed.entry_some (hread r hr)]
    split at he
    · cases he
    · rename_i hne
      exact if_neg hne

end

/-! ## Every run -/

section

variable {st : AppState} {s : Server}

/-- No other statement changes the bonds of the table. -/
theorem run_bonds {F : Formats} {q : Stmt} (hq : ∀ a b w, q ≠ .saveBond a b w) (db : Db) :
    (q.run F db).2.bonds = db.bonds := by
  refine q.run_keeps (·.bonds) (fun db => ?_) db
  cases q with
  | insertDog d => simp only [Stmt.effect]; split <;> rfl
  | saveBond a b w => exact absurd rfl (hq a b w)
  | _ => rfl

/-- A request that makes no bond leaves memory and table. -/
theorem serve_unbonded {a : Arrival} (h : bondOf st a.req = none) :
    (s.serve st a).world.data.bonds = s.world.data.bonds ∧ (s.serve st a).world.db.bonds = s.world.db.bonds := by
  cases hb : a.req.bonds with
  | false =>
    refine Server.serve_inv (I := fun w => w.data.bonds = s.world.data.bonds ∧ w.db.bonds = s.world.db.bonds)
      (fun c hc t w hw => ?_) ⟨rfl, rfl⟩
    rw [exec_bonds, exec_db]
    cases c with
    | bootstrapMutual x y weight => exact absurd hc (by rw [Request.makes, hb]; decide)
    | sql q =>
      refine ⟨hw.1, (run_bonds (fun x y weight hq => ?_) _).trans hw.2⟩
      subst hq
      exact absurd hc (by rw [Request.makes, Request.writes, hb]; decide)
    | _ => exact hw
  | true =>
    obtain ⟨req, clock⟩ := a
    cases req with
    | devBootstrapBond x y weight => cases h
    | stewardBonds hdr x y weight =>
      have h : (verifySteward st hdr).toOption.map (fun _ => (x, y, weight)) = none := h
      show ((stewardBonds st hdr x y weight).eval (exec st) clock s.world).2.data.bonds = _ ∧
        ((stewardBonds st hdr x y weight).eval (exec st) clock s.world).2.db.bonds = _
      unfold stewardBonds
      cases hv : verifySteward st hdr with
      | error c => exact ⟨rfl, rfl⟩
      | ok u => rw [hv] at h; cases h
    | _ => cases hb

/-- **A bond is made in memory and stored in two rows.** -/
theorem serve_bonded (hp : st.pool = true) (ht : Table.bonds ∈ s.world.db.tables) {a : Arrival} {x y : DogId} {w : Rat}
    (h : bondOf st a.req = some (x, y, w)) :
    (s.serve st a).world.data.bonds = s.world.data.bonds.bootstrapMutual x y w ∧
      (s.serve st a).world.db.bonds = replaceRow (fun r : BondRow => (r.dogA, r.dogB))
        ⟨st.formats.uuid y.uuid, st.formats.uuid x.uuid, w⟩ (replaceRow (fun r : BondRow => (r.dogA, r.dogB))
          ⟨st.formats.uuid x.uuid, st.formats.uuid y.uuid, w⟩ s.world.db.bonds) := by
  have hsave : ∀ (W : World) (κ : Nat → DateTime), Table.bonds ∈ W.db.tables → ((saveBond x y w).eval (exec st) κ W).2 =
      { W with db := (Stmt.saveBond y x w).effect st.formats ((Stmt.saveBond x y w).effect st.formats W.db) } := by
    intro W κ hW
    have h₁ : (Stmt.saveBond x y w).succeeds st.formats W.db = true := by simp [Stmt.succeeds, Stmt.table, hW]
    have h₂ : (Stmt.saveBond y x w).succeeds st.formats ((Stmt.saveBond x y w).effect st.formats W.db) = true := by
      simp [Stmt.succeeds, Stmt.table, effect_tables, hW]
    unfold saveBond
    simp only [sql, Prog.op_eq, Prog.call_bind, Prog.done_bind, Prog.pure_eq]
    rw [Prog.eval_call, sql_succeeds h₁, if_neg (by intro h; cases h), Prog.eval_call]
    exact congrArg Prod.snd
      (sql_succeeds (w := { W with db := (Stmt.saveBond x y w).effect st.formats W.db }) (t := κ 1) h₂)
  have hboth : ∀ κ : Nat → DateTime, ((devBootstrapBond st x y w).eval (exec st) κ s.world).2 =
      { s.world.setBonds (s.world.data.bonds.bootstrapMutual x y w) with
        db := (Stmt.saveBond y x w).effect st.formats ((Stmt.saveBond x y w).effect st.formats s.world.db) } := by
    intro κ
    unfold devBootstrapBond
    simp only [bootstrapMutual, hp, if_true, Prog.op_bind, Prog.pure_eq]
    rw [Prog.eval_call, Prog.eval_bind, Prog.eval_done]
    exact hsave _ _ ht
  obtain ⟨req, clock⟩ := a
  cases req with
  | devBootstrapBond x' y' w' =>
    cases h
    show ((devBootstrapBond st x y w).eval (exec st) clock s.world).2.data.bonds = _ ∧
      ((devBootstrapBond st x y w).eval (exec st) clock s.world).2.db.bonds = _
    rw [hboth]
    exact ⟨rfl, rfl⟩
  | stewardBonds hdr x' y' w' =>
    have hbond : (verifySteward st hdr).toOption.map (fun _ => (x', y', w')) = some (x, y, w) := h
    cases hv : verifySteward st hdr with
    | error c => rw [hv] at hbond; cases hbond
    | ok u =>
      rw [hv] at hbond
      cases hbond
      have heval : (handle st (.stewardBonds hdr x y w)) = devBootstrapBond st x y w := by
        show stewardBonds st hdr x y w = _
        unfold stewardBonds
        rw [hv]
        rfl
      show ((handle st (.stewardBonds hdr x y w)).eval (exec st) clock s.world).2.data.bonds = _ ∧
        ((handle st (.stewardBonds hdr x y w)).eval (exec st) clock s.world).2.db.bonds = _
      rw [heval, hboth]
      exact ⟨rfl, rfl⟩
  | _ => cases h

/-- **Memory and table after a run**: on both sides the last bond of each pair counts, in memory raised. -/
theorem serveAll_bonds (hF : st.formats.LawfulIds) (hp : st.pool = true) (x y : DogId) :
    ∀ (as : List Arrival) (s : Server), s.world.db.Whole st.formats →
    (s.serveAll st as).world.data.bonds.edges.lookup (x, y) =
        ((lastBond st as x y).map BondGraph.raised).or (s.world.data.bonds.edges.lookup (x, y)) ∧
      Keyed.last (bondEntry st.formats) (x, y) (s.serveAll st as).world.db.bonds =
        ((lastBond st as x y).map BondGraph.clamp).or (Keyed.last (bondEntry st.formats) (x, y) s.world.db.bonds)
  | [], _, _ => ⟨rfl, rfl⟩
  | a :: as, s, h => by
    obtain ⟨hmem, hrows⟩ := serveAll_bonds hF hp x y as (s.serve st a) (serve_whole hF h)
    rw [Server.serveAll_cons, hmem, hrows]
    unfold lastBond
    rw [Keyed.last_cons, Option.map_or, Option.map_or, Option.or_assoc, Option.or_assoc]
    cases hb : bondOf st a.req with
    | none =>
      obtain ⟨hm, hr⟩ := serve_unbonded hb
      rw [hm, hr, Keyed.entry_none (by rw [bondRead, hb]; rfl)]
      exact ⟨rfl, rfl⟩
    | some b =>
      obtain ⟨x', y', w⟩ := b
      obtain ⟨hm, hr⟩ := serve_bonded hp (h.tables _) hb
      have hread : bondRead st a = some (s(x', y'), w) := by rw [bondRead, hb]; rfl
      rw [hm, hr, Keyed.entry_some hread, BondGraph.lookup_bootstrapMutual, last_saveBond hF, last_saveBond hF,
        ite_pair]
      by_cases hxy : s(x', y') = s(x, y)
      · rw [if_pos hxy, if_pos hxy, if_pos hxy]
        exact ⟨rfl, rfl⟩
      · rw [if_neg hxy, if_neg hxy, if_neg hxy]
        exact ⟨rfl, rfl⟩

end

/-- **A restart gives the bonds back exactly if the last bond of every pair has at least `W_MIN`.** -/
theorem bonds_kept_iff (st : AppState) (hp : st.pool = true) (hF : st.formats.LawfulIds) (db : Db) (t₀ : DateTime)
    (n : Uuid) (s : Server) (as : List Arrival) (ht : ∀ t, t ∈ db.tables) (hs : Server.started st t₀ db n = some s)
    (now : DateTime) :
    (∃ s', (s.serveAll st as).restart st now = some s' ∧
      s'.world.data.bonds.Same (s.serveAll st as).world.data.bonds) ↔
    ∀ x y w, lastBond st as x y = some w → W_MIN ≤ w := by
  obtain ⟨hwhole, hloaded⟩ := started_whole ht hs
  obtain ⟨s', hs'⟩ := (serveAll_whole hF as hwhole).restarts now
  -- both sides agree on a pair exactly if raising its last bond changes nothing
  have hpair : ∀ x y, s'.world.data.bonds.weight x y = (s.serveAll st as).world.data.bonds.weight x y ↔
      ∀ w, lastBond st as x y = some w → W_MIN ≤ w := by
    intro x y
    obtain ⟨hmem, hrows⟩ := serveAll_bonds hF hp x y as s hwhole
    unfold BondGraph.weight
    rw [load_bonds (restart_db hs').2.2.2, hrows, hmem, load_bonds hloaded]
    cases lastBond st as x y with
    | none => exact iff_of_true rfl nofun
    | some w => exact BondGraph.clamp_eq_raised.trans ⟨fun h v hv => Option.some.inj hv ▸ h, fun h => h w rfl⟩
  constructor
  · rintro ⟨s'', hs'', hsame⟩ x y
    cases hs'.symm.trans hs''
    exact (hpair x y).1 (hsame.weight x y)
  · intro h
    exact ⟨s', hs', .of_weight (fun x y => (hpair x y).2 (h x y))⟩

/-- Dogs 1 and 2 are bonded below the threshold, and then at one half. -/
def rebonded : List Arrival :=
  Server.timed ([.devBootstrapBond ⟨1⟩ ⟨2⟩ (1 / 10), .stewardBonds (some "Steward s") ⟨2⟩ ⟨1⟩ (1 / 2)].map
    (fun r => (noon, r)))

theorem bonds_kept_iff_rebonded : ∃ s', (Server.serveAll bench ⟨fresh, noon⟩ rebonded).restart bench noon = some s' ∧
    s'.world.data.bonds.Same (Server.serveAll bench ⟨fresh, noon⟩ rebonded).world.data.bonds :=
  (bonds_kept_iff bench rfl decimals_lawful.toLawfulIds fresh.db noon 0 ⟨fresh, noon⟩ rebonded mem_allTables rfl noon).2
    (fun x y w h => by
      obtain ⟨a, ha, hread⟩ := Keyed.exists_of_last h
      have hpair : s(⟨2⟩, ⟨1⟩) = s(x, y) := by
        rcases List.mem_cons.1 ha with rfl | ha
        · obtain ⟨hpair, -⟩ := Prod.mk.inj (Option.some.inj hread)
          exact Sym2.eq_swap.trans hpair
        · cases List.mem_singleton.1 ha
          exact (Prod.mk.inj (Option.some.inj hread)).1
      have hlast : w = 1 / 2 := by
        rcases Sym2.eq_iff.1 hpair with ⟨rfl, rfl⟩ | ⟨rfl, rfl⟩
        · have hlast : lastBond bench rebonded ⟨2⟩ ⟨1⟩ = some (1 / 2) := by decide +kernel
          exact Option.some.inj (h.symm.trans hlast)
        · have hlast : lastBond bench rebonded ⟨1⟩ ⟨2⟩ = some (1 / 2) := by decide +kernel
          exact Option.some.inj (h.symm.trans hlast)
      rw [hlast]
      decide +kernel)

/-- **A weak bond is weaker after a restart**: dogs 1 and 2 are bonded with weight 0.1, and may call each other until
device-api restarts. -/
theorem bond_weakened : ¬ ∀ (st : AppState) (db : Db) (t₀ : DateTime) (n : Uuid) (s : Server) (as : List Arrival),
    st.pool = true → st.formats.LawfulIds → (∀ t, t ∈ db.tables) → Server.started st t₀ db n = some s →
    (∀ a ∈ as, a.req.bonds = true) → ∀ now : DateTime,
    ∃ s', (s.serveAll st as).restart st now = some s' ∧
      s'.world.data.bonds.Same (s.serveAll st as).world.data.bonds := by
  intro h
  obtain ⟨s', hs, hsame⟩ := h bench fresh.db noon 0 ⟨fresh, noon⟩ [⟨.devBootstrapBond ⟨1⟩ ⟨2⟩ (1 / 10), fun _ => noon⟩]
    rfl decimals_lawful.toLawfulIds mem_allTables rfl (by decide) noon
  have heligible := congrArg (Option.map (fun s => s.world.data.bonds.mutualEligible ⟨1⟩ ⟨2⟩)) hs
  rw [Option.map_some, hsame.eligible] at heligible
  revert heligible
  decide +kernel

end CanisLink
