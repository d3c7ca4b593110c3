import CanisLink.Restart
/-!
# RateKept — when a restart keeps the invite rate

The invites a dog has sent are counted from a list in memory.  Each is also written to `invite_events`, which
`load_into` does not read: after a restart every dog has sent none.  The list is what the calls of the run have made of
it, under every interleaving of the requests: an invite stays in it until a count finds it an hour old.
-/
namespace CanisLink

open Interleave (Prog Pool)

/-- An invite that counts against the limit of the hour. -/
def inLastHour (now t : DateTime) : Bool := decide (numSeconds (now.since t) < 3600)

/-- The invite that a call records for the dog. -/
def Call.recorded (d : DogId) : Call → Option DateTime
  | .recordInvite d' t => if d' = d then some t else none
  | _ => none

/-- The instant at which a call counts the dog's invites. -/
def Call.counted (d : DogId) : Call → Option DateTime
  | .invitesLastHour d' now => if d' = d then some now else none
  | _ => none

/-- The invites recorded for the dog that no later count has found an hour old. -/
def remembered (d : DogId) : List Call → List DateTime
  | [] => []
  | c :: calls =>
    (c.recorded d).toList.filter (fun t => (calls.filterMap (Call.counted d)).all (inLastHour · t)) ++
      remembered d calls

theorem remembered_snoc (d : DogId) (c : Call) : ∀ calls : List Call, remembered d (calls ++ [c]) =
    (remembered d calls).filter (fun t => (c.counted d).all (inLastHour · t)) ++ (c.recorded d).toList
  | [] => by simp [remembered]
  | x :: calls => by
    have hcounts : ∀ t, ((calls ++ [c]).filterMap (Call.counted d)).all (inLastHour · t) =
        ((c.counted d).all (inLastHour · t) && (calls.filterMap (Call.counted d)).all (inLastHour · t)) := by
      intro t
      rw [List.filterMap_append, List.all_append, Bool.and_comm]
      cases hc : c.counted d with
      | none => simp [hc]
      | some now => simp [hc]
    rw [List.cons_append, remembered, remembered, remembered_snoc d c calls, List.filter_append, List.filter_filter,
      List.append_assoc]
    simp only [hcounts]

namespace InviteStore

/-- The invites the store has listed for a dog. -/
def times (s : InviteStore) (d : DogId) : List DateTime := (s.inviteTimes.lookup d).getD []

theorem invitesLastHour_fst (s : InviteStore) (d : DogId) (now : DateTime) :
    (s.invitesLastHour d now).1 = UInt32.ofNat ((s.times d).filter (inLastHour now ·)).length := by
  unfold invitesLastHour times
  cases s.inviteTimes.lookup d <;> rfl

theorem times_invitesLastHour (s : InviteStore) (d d' : DogId) (now : DateTime) :
    (s.invitesLastHour d' now).2.times d = if d' = d then (s.times d).filter (inLastHour now ·) else s.times d := by
  unfold invitesLastHour
  split
  · rename_i h
    split
    · rename_i hd
      subst hd
      unfold times
      rw [h]
      rfl
    · rfl
  · rename_i ts h
    unfold times
    rw [HashMap.lookup_insert]
    by_cases hd : d = d'
    · subst hd
      rw [if_pos rfl, if_pos rfl, h]
      rfl
    · rw [if_neg hd, if_neg (Ne.symm hd)]

theorem times_recordInvite (s : InviteStore) (d d' : DogId) (t : DateTime) :
    (s.recordInvite d' t).times d = if d' = d then s.times d ++ [t] else s.times d := by
  unfold recordInvite times
  rw [HashMap.lookup_insert]
  by_cases hd : d = d'
  · subst hd
    rw [if_pos rfl, if_pos rfl]
    rfl
  · rw [if_neg hd, if_neg (Ne.symm hd)]

theorem times_insert {s s' : InviteStore} {inv : Invite} (h : s.insert inv = .ok s') :
    s'.inviteTimes = s.inviteTimes := by
  unfold insert at h
  split at h
  · cases h
  · cases h
    rfl

end InviteStore

section

variable {st : AppState}

/-- **What a call does to the list of a dog.** -/
theorem exec_times (t : DateTime) (c : Call) (w : World) (d : DogId) : (exec st t c w).2.data.invites.times d =
    (w.data.invites.times d).filter (fun t' => (c.counted d).all (inLastHour · t')) ++ (c.recorded d).toList := by
  have hall : ∀ ts : List DateTime, ts.filter (fun t' => (none : Option DateTime).all (inLastHour · t')) = ts :=
    fun ts => List.filter_eq_self.2 (fun _ _ => rfl)
  have hsame : ∀ {s s' : InviteStore}, s'.inviteTimes = s.inviteTimes →
      s'.times d = (s.times d).filter (fun t' => (none : Option DateTime).all (inLastHour · t')) ++ [] := by
    intro s s' h
    rw [List.append_nil, hall, InviteStore.times, h]
    rfl
  cases c with
  | invitesInsert inv =>
    simp only [exec]
    split
    · rename_i s h
      exact hsame (InviteStore.times_insert h)
    · exact hsame rfl
  | invitesClose id => exact hsame (InviteStore.inviteTimes_close _ _)
  | expireDue now => exact hsame (InviteStore.inviteTimes_closeAll _ _)
  | recordInvite d' at_ =>
    show (w.data.invites.recordInvite d' at_).times d = List.filter (fun t' => Option.all (inLastHour · t') none) _ ++
      (if d' = d then some at_ else none).toList
    rw [InviteStore.times_recordInvite, hall]
    split
    · rfl
    · exact (List.append_nil _).symm
  | invitesLastHour d' now =>
    show (w.data.invites.invitesLastHour d' now).2.times d =
      List.filter (fun t' => Option.all (inLastHour · t') (if d' = d then some now else none)) _ ++ []
    rw [InviteStore.times_invitesLastHour, List.append_nil]
    split
    · rfl
    · exact (hall _).symm
  | sessionsInsert x =>
    simp only [exec]
    split <;> exact hsame rfl
  | _ => exact hsame rfl

/-- **Along every interleaving** the list of a dog holds the invites the calls have recorded and not dropped, and the
tables stay whole. -/
theorem run_times (hF : st.formats.LawfulIds) (d : DogId) : ∀ (sched : List (Nat × DateTime)) (p : ApiPool),
    p.state.data.invites.times d = remembered d (p.log.map (·.cmd)) → p.state.db.Whole st.formats →
    (p.run (exec st) sched).state.data.invites.times d = remembered d ((p.run (exec st) sched).log.map (·.cmd)) ∧
      (p.run (exec st) sched).state.db.Whole st.formats
  | [], _, h, hw => ⟨h, hw⟩
  | l :: sched, p, h, hw => by
    rw [Pool.run_cons]
    rcases Pool.step_cases (exec st) p l with hs | ⟨c, k, -, hs⟩
    · rw [hs]
      exact run_times hF d sched p h hw
    · rw [hs]
      refine run_times hF d sched _ ?_ (exec_whole hF l.2 c hw)
      rw [exec_times, h, List.map_append, List.map_singleton, remembered_snoc]

/-- **After `load_into` no dog has sent an invite.** -/
theorem load_times {F : Formats} {now : DateTime} {db : Db} {data : AppData} (h : loadInto F now db {} = some data)
    (d : DogId) : data.invites.times d = [] := by
  obtain ⟨-, -, hrows, -⟩ := loadInto_loops h
  refine foldlM_inv (I := fun s : InviteStore => s.times d = []) (fun s r s' hs e => ?_) rfl hrows
  obtain ⟨inv, -, e⟩ := Option.bind_eq_some_iff.1 e
  cases hi : s.insert inv with
  | ok s₁ =>
    rw [hi] at e
    cases e
    rw [InviteStore.times, InviteStore.times_insert hi]
    exact hs
  | error m =>
    rw [hi] at e
    cases e
    exact hs

end

/-- The requests at work on a server, along a schedule. -/
def atWork (st : AppState) (s : Server) (reqs : List Request) (sched : List (Nat × DateTime)) : ApiPool :=
  (Pool.start s.world (reqs.map (handle st))).run (exec st) sched

/-- **A restart keeps a dog's count exactly if the count is zero**: over every interleaving of requests, if no invite of
the dog that was recorded is less than an hour old (the count is a `u32`). -/
theorem rate_kept_iff (st : AppState) (hF : st.formats.LawfulIds) (db : Db) (t₀ : DateTime) (n : Uuid) (s : Server)
    (ht : ∀ t, t ∈ db.tables) (hs : Server.started st t₀ db n = some s) (reqs : List Request)
    (sched : List (Nat × DateTime)) (d : DogId) (now : DateTime) :
    (∃ data, loadInto st.formats now (atWork st s reqs sched).state.db {} = some data ∧
      (data.invites.invitesLastHour d now).1 =
        ((atWork st s reqs sched).state.data.invites.invitesLastHour d now).1) ↔
    4294967296 ∣
      ((remembered d ((atWork st s reqs sched).log.map (·.cmd))).filter (inLastHour now ·)).length := by
  obtain ⟨hwhole, hloaded⟩ := started_whole ht hs
  obtain ⟨htimes, hwhole'⟩ : (atWork st s reqs sched).state.data.invites.times d =
      remembered d ((atWork st s reqs sched).log.map (·.cmd)) ∧
      (atWork st s reqs sched).state.db.Whole st.formats :=
    run_times hF d sched _ (load_times hloaded d) hwhole
  obtain ⟨data, hd, -⟩ := hwhole'.load now
  have hzero : (data.invites.invitesLastHour d now).1 = 0 := by
    rw [InviteStore.invitesLastHour_fst, load_times hd]
    rfl
  have hcount : (0 : UInt32) = ((atWork st s reqs sched).state.data.invites.invitesLastHour d now).1 ↔
      4294967296 ∣
        ((remembered d ((atWork st s reqs sched).log.map (·.cmd))).filter (inLastHour now ·)).length := by
    rw [InviteStore.invitesLastHour_fst, htimes, ← UInt32.toNat_inj, UInt32.toNat_ofNat', Nat.dvd_iff_mod_eq_zero]
    exact eq_comm
  rw [← hcount, ← hzero]
  exact ⟨fun ⟨data', hd', h⟩ => by cases hd.symm.trans hd'; exact h, fun h => ⟨data, hd, h⟩⟩

/-- Dog 1 calls dog 2. -/
def dog1Calls : List Request := [.devBootstrapBond ⟨1⟩ ⟨2⟩ 1, stepOn 1 noon, stepOn 2 noon, callTo 1 2]

/-- One request after another, all at noon. -/
def atNoon : List (Nat × DateTime) := [0, 1, 2, 3].flatMap (fun i => List.replicate 20 (i, noon))

/-- An hour later the call counts no more. -/
theorem rate_kept_iff_hour : ∃ data,
    loadInto bench.formats (epoch 46800) (atWork bench ⟨fresh, noon⟩ dog1Calls atNoon).state.db {} = some data ∧
      (data.invites.invitesLastHour ⟨1⟩ (epoch 46800)).1 =
        ((atWork bench ⟨fresh, noon⟩ dog1Calls atNoon).state.data.invites.invitesLastHour ⟨1⟩ (epoch 46800)).1 :=
  (rate_kept_iff bench decimals_lawful.toLawfulIds fresh.db noon 0 ⟨fresh, noon⟩ mem_allTables rfl dog1Calls atNoon ⟨1⟩
    (epoch 46800)).2 (by decide +kernel)

/-- **A restart forgets a call**: it has been made within the hour, and after the restart it is not counted. -/
theorem call_forgotten : ¬ ∀ (st : AppState) (db : Db) (t₀ : DateTime) (n : Uuid) (s : Server) (reqs : List Request)
    (sched : List (Nat × DateTime)) (d : DogId) (now : DateTime), st.pool = true → st.formats.LawfulIds →
    (∀ t, t ∈ db.tables) → Server.started st t₀ db n = some s → (∀ l ∈ sched, l.2 ≤ now) →
    ∃ data, loadInto st.formats now (atWork st s reqs sched).state.db {} = some data ∧
      (data.invites.invitesLastHour d now).1 =
        ((atWork st s reqs sched).state.data.invites.invitesLastHour d now).1 := by
  intro h
  obtain ⟨data, hd, heq⟩ := h bench fresh.db noon 0 ⟨fresh, noon⟩ dog1Calls atNoon ⟨1⟩ noon rfl
    decimals_lawful.toLawfulIds mem_allTables rfl (by decide +kernel)
  have hone : ((atWork bench ⟨fresh, noon⟩ dog1Calls atNoon).state.data.invites.invitesLastHour ⟨1⟩ noon).1 = 1 := by
    decide +kernel
  rw [hone, InviteStore.invitesLastHour_fst, load_times hd] at heq
  cases heq

end CanisLink
