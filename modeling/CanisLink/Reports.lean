import CanisLink.LastMax
import CanisLink.Server
import Mathlib.Data.Finset.Insert
/-!
# Reports — the presence store over a history of reports

The store holds for each dog the last of its reports with the greatest sequence number, and only verified
`post_presence` requests reach it.  Whether the dog is there is read off the stored report's own timestamp, so a dog
that has gone silent is offline in time exactly if that timestamp is not ahead of the instant it was received.
-/
namespace CanisLink

open Interleave (Prog)
open LastMax (keep lastMax IsLastMax)

/-- A report's sequence number. -/
def PresenceReport.number (r : PresenceReport) : Nat := r.seq.toNat

/-- The reports of a dog. -/
def reportsOf (d : DogId) (rs : List PresenceReport) : List PresenceReport :=
  rs.filter (fun r => decide (r.dogId = d))

namespace PresenceStore

/-- The entry of a dog after a report: a report of another dog changes nothing, a late one neither. -/
theorem lookup_upsert (s : PresenceStore) (r : PresenceReport) (d : DogId) : (s.upsert r).inner.lookup d =
    if d = r.dogId then
      some (match s.inner.lookup d with
        | some e => if r.seq < e.seq then e else entryOf r
        | none => entryOf r)
    else s.inner.lookup d := by
  unfold upsert
  by_cases hd : d = r.dogId
  · subst hd
    rw [if_pos rfl]
    cases h : s.inner.lookup r.dogId with
    | none => simp
    | some e =>
      dsimp only
      split
      · exact h
      · simp
  · rw [if_neg hd]
    split
    · split
      · rfl
      · simp [hd]
    · simp [hd]

/-- **The entry of a dog after a history** is what its own reports leave, whatever the others are. -/
theorem lookup_foldl_upsert (d : DogId) : ∀ (rs : List PresenceReport) {s : PresenceStore}
    {cur : Option PresenceReport}, s.inner.lookup d = cur.map entryOf →
    (rs.foldl upsert s).inner.lookup d = ((reportsOf d rs).foldl (keep PresenceReport.number) cur).map entryOf
  | [], _, _, h => h
  | r :: rs, s, cur, h => by
    rw [List.foldl_cons]
    by_cases hd : r.dogId = d
    · have hcons : reportsOf d (r :: rs) = r :: reportsOf d rs := List.filter_cons_of_pos (by simpa using hd)
      rw [hcons, List.foldl_cons]
      refine lookup_foldl_upsert d rs ?_
      rw [lookup_upsert, if_pos hd.symm, h]
      cases cur with
      | none => rfl
      | some e =>
        have hlt : (r.seq < (entryOf e).seq) = (r.number < e.number) := propext UInt64.lt_iff_toNat_lt
        simp only [Option.map_some, keep, hlt]
        split <;> rfl
    · have hcons : reportsOf d (r :: rs) = reportsOf d rs := List.filter_cons_of_neg (by simpa using hd)
      rw [hcons]
      refine lookup_foldl_upsert d rs ?_
      rw [lookup_upsert, if_neg (Ne.symm hd)]
      exact h

/-- The store after a history of reports holds the last of the dog's reports with the greatest number. -/
theorem lookup_reports (d : DogId) (rs : List PresenceReport) (e : PresenceEntry) :
    (rs.foldl upsert {}).inner.lookup d = some e ↔
      ∃ r, IsLastMax PresenceReport.number (reportsOf d rs) r ∧ entryOf r = e := by
  have hempty : ({} : PresenceStore).inner.lookup d = (none : Option PresenceReport).map entryOf := rfl
  rw [lookup_foldl_upsert d rs hempty, Option.map_eq_some_iff]
  refine exists_congr (fun r => and_congr_left (fun _ => ?_))
  exact LastMax.lastMax_eq_some_iff

theorem isPresent_iff (s : PresenceStore) (d : DogId) (now : DateTime) : s.isPresent d now = true ↔
    ∃ e, s.inner.lookup d = some e ∧ e.present = true ∧ now.since e.lastSeen < 10001000000 := by
  unfold isPresent get
  cases hl : s.inner.lookup d with
  | none => simp
  | some e =>
    have hage : decide (asU64 (max (numMilliseconds (now.since e.lastSeen)) 0) ≤ PRESENCE_TTL_MS) = true ↔
        now.since e.lastSeen < 10001000000 := by
      rw [decide_eq_true_iff, UInt64.le_iff_toNat_le, max_numMilliseconds]
      have hnow := now.hi
      have hlo := e.lastSeen.lo
      unfold DateTime.since
      have hu := asU64_toNat (i := max (now.ns - e.lastSeen.ns) 0 / 1000000) (by omega) (by omega)
      have httl : PRESENCE_TTL_MS.toNat = 10000 := rfl
      rw [httl]
      omega
    simp [hage]

end PresenceStore

/-! ## Reports in any order -/

/-- The numbers of a dog's reports are distinct. -/
def DistinctNumbers (R : Finset PresenceReport) : Prop :=
  ∀ r ∈ R, ∀ r' ∈ R, r.dogId = r'.dogId → r.seq = r'.seq → r = r'

instance (R : Finset PresenceReport) : Decidable (DistinctNumbers R) := inferInstanceAs (Decidable (∀ r ∈ R, _))

/-- The report of a dog with the greatest number. -/
def Newest (R : Finset PresenceReport) (d : DogId) (r : PresenceReport) : Prop :=
  r ∈ R ∧ r.dogId = d ∧ ∀ r' ∈ R, r'.dogId = d → r'.seq ≤ r.seq

/-- Every report of `R` arrives, in some order and perhaps more than once. -/
def Delivers (R : Finset PresenceReport) (rs : List PresenceReport) : Prop := ∀ r, r ∈ rs ↔ r ∈ R

namespace PresenceStore

theorem lookup_delivered {R : Finset PresenceReport} (hR : DistinctNumbers R) {rs : List PresenceReport}
    (hrs : Delivers R rs) (d : DogId) (e : PresenceEntry) :
    (rs.foldl upsert {}).inner.lookup d = some e ↔ ∃ r, Newest R d r ∧ entryOf r = e := by
  have hmem : ∀ r, r ∈ reportsOf d rs ↔ r ∈ R ∧ r.dogId = d := by
    intro r
    unfold reportsOf
    rw [List.mem_filter, decide_eq_true_iff, hrs]
  have hinj : ∀ r ∈ reportsOf d rs, ∀ r' ∈ reportsOf d rs, r.number = r'.number → r = r' := by
    intro r hr r' hr' hnum
    obtain ⟨hr, hd⟩ := (hmem r).1 hr
    obtain ⟨hr', hd'⟩ := (hmem r').1 hr'
    exact hR r hr r' hr' (hd.trans hd'.symm) (UInt64.toNat_inj.1 hnum)
  rw [lookup_reports]
  refine exists_congr (fun r => and_congr_left (fun _ => ?_))
  rw [LastMax.isLastMax_iff hinj, hmem, and_assoc]
  refine and_congr_right (fun _ => and_congr_right (fun _ => forall_congr' (fun r' => ?_)))
  rw [hmem, and_imp]
  exact Iff.rfl

/-- Stores that hold the same entries list the same dogs, each in its own order. -/
theorem listPresent_perm {s s' : PresenceStore} (h : ∀ d, s.inner.lookup d = s'.inner.lookup d) (ord ord' : IterOrder)
    (now : DateTime) : (s.listPresent ord now).Perm (s'.listPresent ord' now) := by
  have hget : (fun r : (_ : DogId) × PresenceEntry => s.get r.1 now) = fun r => s'.get r.1 now := by
    funext r
    unfold get
    rw [h]
  unfold listPresent
  rw [hget]
  have hvisit := ((ord.perm _).trans (HashMap.perm_of_lookup_eq h)).trans (ord'.perm _).symm
  exact (hvisit.filterMap _).filter _

/-- **Reports converge whatever their order**: the store holds the newest report of each dog, and any other delivery of
the same reports leaves the same entries and the same answers. -/
theorem delivered_converge (R : Finset PresenceReport) (hR : DistinctNumbers R) (rs : List PresenceReport)
    (hrs : Delivers R rs) :
    (∀ d e, (rs.foldl upsert {}).inner.lookup d = some e ↔ ∃ r, Newest R d r ∧ entryOf r = e) ∧
      ∀ rs', Delivers R rs' →
        (rs.foldl upsert {}).inner.entries.Perm (rs'.foldl upsert {}).inner.entries ∧
        ∀ now, (∀ d, (rs.foldl upsert {}).get d now = (rs'.foldl upsert {}).get d now) ∧
          (∀ d, (rs.foldl upsert {}).isPresent d now = (rs'.foldl upsert {}).isPresent d now) ∧
          ∀ ord ord', ((rs.foldl upsert {}).listPresent ord now).Perm ((rs'.foldl upsert {}).listPresent ord' now) := by
  refine ⟨lookup_delivered hR hrs, fun rs' hrs' => ?_⟩
  have hsame : ∀ d, (rs.foldl upsert {}).inner.lookup d = (rs'.foldl upsert {}).inner.lookup d := by
    intro d
    apply Option.ext
    intro e
    exact (lookup_delivered hR hrs d e).trans (lookup_delivered hR hrs' d e).symm
  have hget : ∀ now d, (rs.foldl upsert {}).get d now = (rs'.foldl upsert {}).get d now := by
    intro now d
    unfold get
    rw [hsame]
  refine ⟨HashMap.perm_of_lookup_eq hsame, fun now => ⟨hget now, fun d => ?_, fun ord ord' => ?_⟩⟩
  · unfold isPresent
    rw [hget]
  · exact listPresent_perm hsame ord ord' now

end PresenceStore

/-- Dog 1's report of a number at noon: the odd ones say it is there. -/
def numbered (seq : UInt64) : PresenceReport where
  dogId := ⟨1⟩
  terminalId := ⟨1⟩
  present := decide (seq % 2 = 1)
  confidence := 1
  forceBand := .medium
  forceN := 1
  tofMm := none
  ts := noon
  seq := seq

/-- Report 2 comes late and report 3 twice. -/
theorem delivered_converge_late :
    ([numbered 3, numbered 2, numbered 3].foldl PresenceStore.upsert {}).isPresent ⟨1⟩ noon =
      ([numbered 2, numbered 3].foldl PresenceStore.upsert {}).isPresent ⟨1⟩ noon := by
  have hall := PresenceStore.delivered_converge {numbered 2, numbered 3} (by decide)
    [numbered 3, numbered 2, numbered 3] (fun r => by grind)
  exact ((hall.2 [numbered 2, numbered 3] (fun r => by simp)).2 noon).2.1 ⟨1⟩

/-! ## Reports that reach the store -/

section

variable (st : AppState)

/-- The report of a request, if its credentials are verified. -/
def reportOf (a : Arrival) : Option PresenceReport :=
  match a.req with
  | .postPresence h r => if (verifyDevice st h r.terminalId r.dogId).isOk then some r else none
  | _ => none

variable {st} {a : Arrival}

/-- Only `post_presence` touches the presence store. -/
theorem serve_presence_of_not_post (s : Server) (h : a.req.isPost = false) :
    (s.serve st a).world.data.presence = s.world.data.presence :=
  Server.serve_inv (I := fun w => w.data.presence = s.world.data.presence) (fun c hc t w hw => by
    rw [exec_presence]
    cases c with
    | presenceUpsert r =>
      have hc : a.req.isPost = true := hc
      rw [h] at hc
      cases hc
    | _ => exact hw) rfl

/-- **The presence store after a request.** -/
theorem serve_presence (s : Server) (a : Arrival) : (s.serve st a).world.data.presence =
    (reportOf st a).elim s.world.data.presence s.world.data.presence.upsert := by
  cases hreq : a.req with
  | postPresence h r =>
    have hserve : (s.serve st a).world = ((postPresence st h r).eval (exec st) a.clock s.world).2 := by
      unfold Server.serve
      rw [hreq]
      rfl
    rw [hserve]
    unfold reportOf
    rw [hreq]
    dsimp only
    unfold postPresence
    cases verifyDevice st h r.terminalId r.dogId with
    | error e => rfl
    | ok u => cases st.pool <;> rfl
  | _ =>
    have hnot : a.req.isPost = false := by rw [hreq]; rfl
    have hnone : reportOf st a = none := by unfold reportOf; rw [hreq]
    rw [serve_presence_of_not_post s hnot, hnone]
    rfl

/-- What device-api has of the dog. -/
def Server.entry (s : Server) (d : DogId) : Option PresenceEntry := s.world.data.presence.inner.lookup d

/-- **The presence store after a run** is what its verified reports leave. -/
theorem serveAll_presence : ∀ (as : List Arrival) (s : Server), (s.serveAll st as).world.data.presence =
    (as.filterMap (reportOf st)).foldl PresenceStore.upsert s.world.data.presence
  | [], _ => rfl
  | a :: as, s => by
    rw [Server.serveAll_cons, serveAll_presence as, serve_presence]
    cases h : reportOf st a with
    | none => rw [List.filterMap_cons_none h]; rfl
    | some r => rw [List.filterMap_cons_some h]; rfl

end

/-! ## Going offline -/

/-- The verified reports of a dog in a run. -/
def reportsIn (st : AppState) (d : DogId) (as : List Arrival) : List PresenceReport :=
  reportsOf d (as.filterMap (reportOf st))

/-- From the TTL after `received` on, the dog is not present. -/
def OfflineAfter (s : Server) (d : DogId) (received : DateTime) : Prop :=
  ∀ now : DateTime, milliseconds PRESENCE_TTL_MS.toNat < now.since received →
    s.world.data.presence.isPresent d now = false

/-- A report received at `received` that is no longer good once the TTL is over: it says absent, or was stamped a
millisecond before (up to the last nanosecond), or no instant is left after the TTL. -/
def PresenceReport.StaleBy (r : PresenceReport) (received : DateTime) : Prop :=
  r.present = false ∨ r.ts.ns + 999999 ≤ received.ns ∨ received.plus 10000000001 = none

instance (r : PresenceReport) (t : DateTime) : Decidable (r.StaleBy t) := inferInstanceAs (Decidable (_ ∨ _))

/-- The first instant after the TTL is the one that counts. -/
theorem staleBy_iff (r : PresenceReport) (received : DateTime) : r.StaleBy received ↔
    ∀ now : DateTime, milliseconds PRESENCE_TTL_MS.toNat < now.since received → r.present = true →
      10001000000 ≤ now.since r.ts := by
  have httl : milliseconds PRESENCE_TTL_MS.toNat = 10000000000 := rfl
  unfold PresenceReport.StaleBy DateTime.since
  rw [httl]
  constructor
  · rintro (habs | hts | hend) now hnow hpres
    · rw [habs] at hpres
      cases hpres
    · omega
    · unfold DateTime.plus at hend
      split at hend
      · cases hend
      · rename_i hout
        have hlo := received.lo
        have hhi := now.hi
        exact absurd ⟨by omega, by omega⟩ hout
  · intro h
    cases hp : r.present with
    | false => exact .inl rfl
    | true =>
      right
      cases hplus : received.plus 10000000001 with
      | none => exact .inr rfl
      | some t =>
        have ht := DateTime.plus_ns hplus
        have := h t (by omega) hp
        exact .inl (by omega)

/-- **A silent terminal is offline in time exactly if the report the store keeps is stale by then**: over every run from
an empty presence store in which nothing is heard of the dog after `a`, received at `a.clock 0`. -/
theorem offline_iff (st : AppState) (s : Server) (hs : s.world.data.presence = {}) (before : List Arrival) (a : Arrival)
    (after : List Arrival) (d : DogId) (hsilent : reportsIn st d after = []) :
    OfflineAfter (s.serveAll st (before ++ a :: after)) d (a.clock 0) ↔
      ∀ r, IsLastMax PresenceReport.number (reportsIn st d (before ++ [a])) r → r.StaleBy (a.clock 0) := by
  have hall : reportsIn st d (before ++ a :: after) = reportsIn st d (before ++ [a]) := by
    rw [List.append_cons]
    unfold reportsIn reportsOf at hsilent ⊢
    rw [List.filterMap_append, List.filter_append, hsilent, List.append_nil]
  have hkept : ∀ e, (s.serveAll st (before ++ a :: after)).world.data.presence.inner.lookup d = some e ↔
      ∃ r, IsLastMax PresenceReport.number (reportsIn st d (before ++ [a])) r ∧ PresenceStore.entryOf r = e := by
    intro e
    rw [serveAll_presence, hs, PresenceStore.lookup_reports]
    exact hall ▸ Iff.rfl
  unfold OfflineAfter
  simp only [staleBy_iff, ← Bool.not_eq_true, PresenceStore.isPresent_iff, hkept]
  constructor
  · intro h r hr now hnow hp
    by_contra hage
    exact h now hnow ⟨_, ⟨r, hr, rfl⟩, hp, not_le.1 hage⟩
  · rintro h now hnow ⟨e, ⟨r, hr, rfl⟩, hp, hage⟩
    exact absurd (h r hr now hnow hp) (not_le.2 hage)

/-- Dog 1's terminal reports at noon and is heard a second later. -/
def heard : Arrival := ⟨stepOn 1 noon, fun _ => epoch 43201⟩

theorem offline_iff_heard : OfflineAfter (Server.serveAll bench ⟨fresh, noon⟩ [heard]) ⟨1⟩ (epoch 43201) :=
  (offline_iff bench ⟨fresh, noon⟩ rfl [] heard [] ⟨1⟩ rfl).2 (fun r hr => by
    have hkept := LastMax.lastMax_eq_some_iff.2 hr
    cases hkept
    decide)

/-- **A silent terminal stays present**: its clock is an hour ahead, and so is its last report. -/
theorem present_ahead : ¬ ∀ (st : AppState) (s : Server) (before : List Arrival) (a : Arrival) (after : List Arrival)
    (d : DogId), s.world.data.presence = {} → (∃ r, reportOf st a = some r ∧ r.dogId = d) →
    reportsIn st d after = [] → OfflineAfter (s.serveAll st (before ++ a :: after)) d (a.clock 0) := by
  intro h
  have := h bench ⟨fresh, noon⟩ [] ⟨stepOn 1 (epoch 46800), fun _ => noon⟩ [] ⟨1⟩ rfl ⟨_, rfl, rfl⟩ rfl (epoch 46800)
    (by decide)
  revert this
  decide +kernel

end CanisLink
