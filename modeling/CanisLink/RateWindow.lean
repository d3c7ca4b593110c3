import CanisLink.Answers
/-!
# RateWindow — the invites of any hour

`create_invite` counts the invites of the caller from a list that each count prunes to the last hour, by whole seconds
rounded towards zero, and that a successful call extends.  The list and the history of the successful calls have the
same last hour at every later instant, so no window of an hour holds more of them than the limit.
-/
namespace CanisLink

open Interleave (Prog)

def Reply.rings : Reply → Bool
  | .created _ => true
  | _ => false

/-- The instant of the successful call of the dog that an arrival is. -/
def sentBy (st : AppState) (d : DogId) (s : Server) (a : Arrival) : Option DateTime :=
  match a.req with
  | .createInvite h b =>
    if b.dogId = d ∧ (callReply st s.world a.clock h b).rings = true then some (a.clock 0) else none
  | _ => none

/-- The instants of the dog's successful calls along a run. -/
def sentIn (st : AppState) (d : DogId) : Server → List Arrival → List DateTime
  | _, [] => []
  | s, a :: as => (sentBy st d s a).toList ++ sentIn st d (s.serve st a) as

/-- The limit in force for the dog. -/
def Server.limit (s : Server) (d : DogId) : UInt32 := (s.world.data.policies.current d).maxInvitesPerHour

/-- In the 3600 seconds up to an instant, the first of them excluded and the last included. -/
def inWindow (ns : Int) (t : DateTime) : Bool := decide (ns - 3600000000000 < t.ns) && decide (t.ns ≤ ns)

/-! ## The last hour -/

section

variable {now later t : DateTime}

/-- Whole seconds, rounded towards zero, are fewer than 3600 exactly within the hour. -/
theorem inLastHour_iff : inLastHour now t = true ↔ now.ns - 3600000000000 < t.ns := by
  unfold inLastHour numSeconds DateTime.since
  rw [decide_eq_true_eq]
  rcases le_total 0 (now.ns - t.ns) with h | h
  · rw [Int.tdiv_eq_ediv_of_nonneg h]
    omega
  · have hneg : 0 ≤ (-(now.ns - t.ns)).tdiv 1000000000 := Int.tdiv_nonneg (by omega) (by decide)
    rw [Int.neg_tdiv] at hneg
    omega

theorem inLastHour_mono (h : now ≤ later) (hl : inLastHour later t = true) : inLastHour now t = true := by
  rw [inLastHour_iff] at *
  rw [DateTime.le_iff] at h
  omega

/-- What an earlier count has pruned no later count misses. -/
theorem filter_recent (h : now ≤ later) (ts : List DateTime) :
    (ts.filter (inLastHour now ·)).filter (inLastHour later ·) = ts.filter (inLastHour later ·) := by
  rw [List.filter_filter]
  refine List.filter_congr (fun t _ => ?_)
  cases hl : inLastHour later t with
  | false => rfl
  | true => rw [inLastHour_mono h hl]; rfl

theorem length_filter_later (h : now ≤ later) (ts : List DateTime) :
    (ts.filter (inLastHour later ·)).length ≤ (ts.filter (inLastHour now ·)).length := by
  rw [← filter_recent h]
  exact List.length_filter_le _ _

/-- Of instants up to `now`, a window that holds `now` holds none that is an hour old. -/
theorem length_inWindow_le {ns : Int} {ts : List DateTime} (hnow : inWindow ns now = true) :
    (ts.filter (inWindow ns ·)).length ≤ (ts.filter (inLastHour now ·)).length := by
  refine List.Sublist.length_le (List.monotone_filter_right ts (fun t ht => ?_))
  unfold inWindow at hnow ht
  simp only [Bool.and_eq_true, decide_eq_true_eq] at hnow ht
  rw [inLastHour_iff]
  omega

end

/-! ## The list and the history -/

/-- **The list of the dog and the history of its successful calls have the same last hour** at every instant from now
on, of fewer calls than a `u32` counts. -/
structure Counted (d : DogId) (sent : List DateTime) (s : Server) : Prop where
  past : ∀ t ∈ sent, t ≤ s.time
  recent : ∀ now, s.time ≤ now →
    (s.world.data.invites.times d).filter (inLastHour now ·) = sent.filter (inLastHour now ·)
  few : (sent.filter (inLastHour s.time ·)).length < 4294967296

section

variable {st : AppState} {s : Server} {a : Arrival} {d : DogId} {sent : List DateTime}

theorem makes_uncounted {r : Request} (hr : r.caller ≠ some d) {c : Call} (hc : r.makes c) :
    c.counted d = none ∧ c.recorded d = none := by
  cases c with
  | recordInvite d' t =>
    refine ⟨rfl, if_neg ?_⟩
    rintro rfl
    exact hr hc
  | invitesLastHour d' now =>
    refine ⟨if_neg ?_, rfl⟩
    rintro rfl
    exact hr hc
  | _ => exact ⟨rfl, rfl⟩

/-- A request that is no call of the dog leaves its list alone. -/
theorem serve_times (hr : a.req.caller ≠ some d) :
    (s.serve st a).world.data.invites.times d = s.world.data.invites.times d := by
  refine Server.serve_inv (I := fun w => w.data.invites.times d = s.world.data.invites.times d)
    (fun c hc t w hw => ?_) rfl
  obtain ⟨hcounted, hrecorded⟩ := makes_uncounted hr hc
  exact (times_kept (r := (exec st t c w).1) rfl hcounted hrecorded).trans hw

theorem serve_called {h : HeaderMap} {b : CreateInviteBody} (hreq : a.req = .createInvite h b) :
    Called st s.world a.clock h b (callReply st s.world a.clock h b)
      ((s.serve st a).world.data.invites.times b.dogId) := by
  unfold Server.serve
  rw [hreq]
  exact createInvite_yields h b

theorem sentBy_of_caller_ne (hr : a.req.caller ≠ some d) : sentBy st d s a = none := by
  unfold sentBy
  split
  · rename_i h b hreq
    refine if_neg (fun hd => hr ?_)
    rw [hreq, ← hd.1]
    rfl
  · rfl

theorem callThrough_limit {w : World} {now : DateTime} {h : HeaderMap} {b : CreateInviteBody} {p : DogId}
    (hp : callThrough st w now h b = some p) :
    (w.data.invites.invitesLastHour b.dogId now).1 < (w.data.policies.current b.dogId).maxInvitesPerHour := by
  by_contra hge
  have hdenied : inviteRateOk (w.data.invites.invitesLastHour b.dogId now).1
      (w.data.policies.current b.dogId).maxInvitesPerHour = .error .rateLimit := if_pos (UInt32.not_lt.1 hge)
  cases hp.symm.trans (callThrough_limited hdenied)

/-- **What a request does to the list of the dog**: nothing, or a count prunes it, or a call that rings below the limit
is added. -/
theorem serve_sent (st : AppState) (s : Server) (a : Arrival) (d : DogId) :
    sentBy st d s a = none ∧ (s.serve st a).world.data.invites.times d = s.world.data.invites.times d ∨
    sentBy st d s a = none ∧ (s.serve st a).world.data.invites.times d = s.world.recent d (a.clock 0) ∨
    sentBy st d s a = some (a.clock 0) ∧
      (s.serve st a).world.data.invites.times d = s.world.recent d (a.clock 0) ++ [a.clock 0] ∧
      (s.world.data.invites.invitesLastHour d (a.clock 0)).1 < s.limit d := by
  by_cases hr : a.req.caller = some d
  · cases hreq : a.req with
    | createInvite h b =>
      rw [hreq] at hr
      obtain rfl : b.dogId = d := Option.some.inj hr
      have hsent : sentBy st b.dogId s a =
          if (callReply st s.world a.clock h b).rings = true then some (a.clock 0) else none := by
        unfold sentBy
        rw [hreq]
        simp
      rw [hsent]
      have hc := @serve_called st s a h b hreq
      generalize (s.serve st a).world.data.invites.times b.dogId = left at hc
      generalize callReply st s.world a.clock h b = reply at hc
      cases hc with
      | refused guards pruned => exact pruned.imp (fun h => ⟨rfl, h⟩) (fun h => .inl ⟨rfl, h⟩)
      | panicked through late => exact .inr (.inl ⟨rfl, rfl⟩)
      | clashed through taken => exact .inr (.inl ⟨rfl, rfl⟩)
      | created through rings free => exact .inr (.inr ⟨rfl, rfl, callThrough_limit through⟩)
    | _ =>
      rw [hreq] at hr
      cases hr
  · exact .inl ⟨sentBy_of_caller_ne hr, serve_times hr⟩

/-- **A call rings below its limit**, counted from the history. -/
theorem Counted.below (hc : Counted d sent s) (ht : s.OnTime a) {now : DateTime} (hnow : sentBy st d s a = some now) :
    now = a.clock 0 ∧ (sent.filter (inLastHour now ·)).length < (s.limit d).toNat := by
  rcases serve_sent st s a d with ⟨hsent, -⟩ | ⟨hsent, -⟩ | ⟨hsent, -, hlimit⟩
  · cases hsent.symm.trans hnow
  · cases hsent.symm.trans hnow
  · cases hsent.symm.trans hnow
    refine ⟨rfl, ?_⟩
    have hfew := lt_of_le_of_lt (length_filter_later ht.1 sent) hc.few
    rw [UInt32.lt_iff_toNat_lt, InviteStore.invitesLastHour_fst, hc.recent _ ht.1, UInt32.toNat_ofNat',
      Nat.mod_eq_of_lt hfew] at hlimit
    exact hlimit

theorem counted_step (hc : Counted d sent s) (ht : s.OnTime a) :
    Counted d (sent ++ (sentBy st d s a).toList) (s.serve st a) := by
  have hstart : s.time ≤ a.clock 0 := ht.1
  have hend : a.clock 0 ≤ (s.serve st a).time := ht.2 (Nat.zero_le _)
  have hall := le_trans hstart hend
  have hkept : ∀ t ∈ sent, t ≤ (s.serve st a).time := fun t h => le_trans (hc.past t h) hall
  have hfew := length_filter_later hend sent
  rcases serve_sent st s a d with ⟨hsent, htimes⟩ | ⟨hsent, htimes⟩ | ⟨hsent, htimes, -⟩
  · rw [hsent, Option.toList_none, List.append_nil]
    exact ⟨hkept, fun now h => by rw [htimes, hc.recent now (le_trans hall h)],
      lt_of_le_of_lt (length_filter_later hall sent) hc.few⟩
  · rw [hsent, Option.toList_none, List.append_nil]
    refine ⟨hkept, fun now h => ?_, lt_of_le_of_lt (length_filter_later hall sent) hc.few⟩
    rw [htimes, World.recent, filter_recent (le_trans hend h), hc.recent now (le_trans hall h)]
  · have hbelow := (hc.below ht hsent).2
    rw [hsent, Option.toList_some]
    refine ⟨fun t h => ?_, fun now h => ?_, ?_⟩
    · rcases List.mem_append.1 h with h | h
      · exact hkept t h
      · exact List.mem_singleton.1 h ▸ hend
    · rw [htimes, World.recent, List.filter_append, filter_recent (le_trans hend h),
        hc.recent now (le_trans hall h), List.filter_append]
    · have hlimit := (s.limit d).toNat_lt
      have hlast := List.length_filter_le (inLastHour (s.serve st a).time ·) [a.clock 0]
      rw [List.filter_append, List.length_append]
      rw [List.length_singleton] at hlast
      omega

theorem counted_run : ∀ (as : List Arrival) {s : Server} {sent : List DateTime}, Counted d sent s →
    s.Meets st Server.OnTime as → Counted d (sent ++ sentIn st d s as) (s.serveAll st as)
  | [], _, sent, hc, _ => by
    rw [sentIn, List.append_nil]
    exact hc
  | a :: as, s, sent, hc, hm => by
    rw [sentIn, ← List.append_assoc]
    exact counted_run as (counted_step hc hm.1) hm.2

theorem sentIn_snoc (st : AppState) (d : DogId) (a : Arrival) : ∀ (before : List Arrival) (s : Server),
    sentIn st d s (before ++ [a]) = sentIn st d s before ++ (sentBy st d (s.serveAll st before) a).toList
  | [], _ => List.append_nil _
  | b :: before, s => by
    rw [List.cons_append, sentIn, sentIn, sentIn_snoc st d a before, List.append_assoc]
    rfl

/-- A window up to a call that rings holds at most as many calls as the limit. -/
theorem Counted.window (hc : Counted d sent s) (ht : s.OnTime a) {now : DateTime} (hnow : sentBy st d s a = some now)
    {ns : Int} (hin : inWindow ns now = true) :
    ((sent ++ [now]).filter (inWindow ns ·)).length ≤ (s.limit d).toNat := by
  have hbelow := (hc.below ht hnow).2
  have hwindow := @length_inWindow_le now ns sent hin
  have hlast := List.length_filter_le (inWindow ns ·) [now]
  rw [List.length_singleton] at hlast
  rw [List.filter_append, List.length_append]
  omega

/-- **Under one limit no window holds more calls than that**: what each request keeps. -/
theorem window_step {m : UInt32} (hc : Counted d sent s) (ht : s.OnTime a) (hm : s.limit d = m)
    (hw : ∀ ns, (sent.filter (inWindow ns ·)).length ≤ m.toNat) (ns : Int) :
    ((sent ++ (sentBy st d s a).toList).filter (inWindow ns ·)).length ≤ m.toNat := by
  cases hsent : sentBy st d s a with
  | none =>
    rw [Option.toList_none, List.append_nil]
    exact hw ns
  | some now =>
    rw [Option.toList_some]
    cases hin : inWindow ns now with
    | true => exact hm ▸ hc.window ht hsent hin
    | false =>
      rw [List.filter_append, List.filter_singleton, hin]
      simpa using hw ns

theorem window_run {m : UInt32} : ∀ (as : List Arrival) {s : Server} {sent : List DateTime}, Counted d sent s →
    (∀ ns, (sent.filter (inWindow ns ·)).length ≤ m.toNat) → s.Meets st Server.OnTime as →
    s.Meets st (fun s _ => s.limit d = m) as →
    ∀ ns, ((sent ++ sentIn st d s as).filter (inWindow ns ·)).length ≤ m.toNat
  | [], _, sent, _, hw, _, _ => by
    rw [sentIn, List.append_nil]
    exact hw
  | a :: as, s, sent, hc, hw, ht, hm => by
    rw [sentIn, ← List.append_assoc]
    exact window_run as (counted_step hc ht.1) (window_step hc ht.1 hm.1 hw) ht.2 hm.2

end

/-- **The limit holds in every window of an hour**: over every run of requests handled one at a time at non-decreasing
instants, from a start at which no invite has been counted.  At each successful call the dog's successful calls of the
3600 seconds up to it are at most the limit in force; under one limit throughout, so are those of any 3600 seconds. -/
theorem rate_window (st : AppState) (s : Server) (d : DogId) (hs : s.world.data.invites.times d = [])
    (as : List Arrival) (hm : s.Meets st Server.OnTime as) :
    (∀ before a after now, as = before ++ a :: after → sentBy st d (s.serveAll st before) a = some now →
      ((sentIn st d s (before ++ [a])).filter (inWindow now.ns ·)).length ≤
        ((s.serveAll st before).limit d).toNat) ∧
    ∀ m, s.Meets st (fun s _ => s.limit d = m) as →
      ∀ ns, ((sentIn st d s as).filter (inWindow ns ·)).length ≤ m.toNat := by
  have hstart : Counted d [] s := by
    refine ⟨fun _ h => ?_, fun _ _ => by rw [hs], by simp⟩
    cases h
  constructor
  · rintro before a after now rfl hnow
    obtain ⟨hbefore, hrest⟩ := Server.Meets.append hm
    have hc := counted_run before hstart hbefore
    rw [sentIn_snoc, hnow]
    refine hc.window hrest.1 hnow ?_
    unfold inWindow
    simp
  · intro m hlimit
    exact window_run as hstart (fun _ => Nat.zero_le _) hm hlimit

/-- Dog 1 has a friend, and may call twice an hour. -/
def twiceAnHour : World :=
  serveAt bench (epoch 39600) fresh [.devBootstrapBond ⟨1⟩ ⟨2⟩ 1,
    .stewardPolicy (some "Steward s") { dogId := ⟨1⟩, maxInvitesPerHour := some 2 }]

/-- Dog 1 calls at eleven, at half past, a minute before noon and half a minute past it; nobody answers. -/
def callsAroundNoon : List (DateTime × Request) :=
  [39600, 41400, 43140, 43230].flatMap (fun s => [(epoch s, stepOn 1 (epoch s)), (epoch s, stepOn 2 (epoch s)),
    (epoch s, callTo 1 2), (epoch (s + 26), .policyTick)])

/-- The third call is one too many, and at the fourth the first is an hour old. -/
theorem rate_window_noon :
    sentIn bench ⟨1⟩ ⟨twiceAnHour, epoch 39600⟩ (Server.timed callsAroundNoon) =
      [epoch 39600, epoch 41400, epoch 43230] ∧
    ∀ ns, ((sentIn bench ⟨1⟩ ⟨twiceAnHour, epoch 39600⟩ (Server.timed callsAroundNoon)).filter
      (inWindow ns ·)).length ≤ 2 :=
  ⟨by decide +kernel, (rate_window bench ⟨twiceAnHour, epoch 39600⟩ ⟨1⟩ (by decide +kernel)
    (Server.timed callsAroundNoon) (Server.timed_onTime _ _ (by decide))).2 2 (by decide +kernel)⟩

end CanisLink
