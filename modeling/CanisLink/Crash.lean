import CanisLink.Consent
import CanisLink.Restart
/-!
# Crash — processes that are killed at work

A process of device-api may be killed between any two calls of its handlers, and the next one loads what the statements
of the handlers left in the tables.  It always can; and what memory and tables then hold is accounted for by what the
processes before it were asked: an invite by its caller's call, a session by that and its callee's accept.  A date whose
text does not read back may change on the way; ids and dogs do not.
-/
namespace CanisLink

open Interleave (Prog Pool Step own)

/-! ## A past -/

/-- What one process did until it was killed, or until its clients hung up: the requests, and their calls in order. -/
structure Era where
  start : World
  reqs : List Request
  sched : List (Nat × DateTime)

/-- `es` is the past of the world: processes at work, each killed at some moment and followed by one that loads the
tables. -/
inductive Past (st : AppState) : List Era → World → Prop
  | first : Past st [] fresh
  | works {es : List Era} {w : World} (h : Past st es w) (reqs : List Request) (sched : List (Nat × DateTime)) :
      Past st (es ++ [⟨w, reqs, sched⟩]) (reached st w reqs sched).state
  | killed {es : List Era} {w : World} (h : Past st es w) (now : DateTime) (data : AppData)
      (hd : loadInto st.formats now w.db {} = some data) :
      Past st es { data, db := w.db, nextUuid := w.nextUuid }

/-! ## What a restart does not change -/

/-- The same id, and the same dogs. -/
structure Invite.Alike (inv inv' : Invite) : Prop where
  id : inv.id = inv'.id
  fromDog : inv.fromDog = inv'.fromDog
  toDog : inv.toDog = inv'.toDog

/-- The same id, the same invite and the same dogs. -/
structure SessionRecord.Alike (x y : SessionRecord) : Prop where
  id : x.id = y.id
  inviteId : x.inviteId = y.inviteId
  dogA : x.dogA = y.dogA
  dogB : x.dogB = y.dogB

theorem Invite.Alike.trans {a b c : Invite} (h : a.Alike b) (h' : b.Alike c) : a.Alike c :=
  ⟨h.id.trans h'.id, h.fromDog.trans h'.fromDog, h.toDog.trans h'.toDog⟩

theorem SessionRecord.Alike.trans {x y z : SessionRecord} (h : x.Alike y) (h' : y.Alike z) : x.Alike z :=
  ⟨h.id.trans h'.id, h.inviteId.trans h'.inviteId, h.dogA.trans h'.dogA, h.dogB.trans h'.dogB⟩

theorem SessionRecord.Kin.alike {x y : SessionRecord} (h : x.Kin y) : x.Alike y :=
  ⟨h.id, h.inviteId, h.dogA, h.dogB⟩

theorem Invite.reread_alike (F : Formats) (now : DateTime) (inv : Invite) : (inv.reread F now).Alike inv :=
  ⟨rfl, rfl, rfl⟩

theorem SessionRecord.reread_alike (F : Formats) (now : DateTime) (x : SessionRecord) : (x.reread F now).Alike x :=
  ⟨rfl, rfl, rfl, rfl⟩

/-! ## Accounting for memory and tables -/

/-- `P` holds of every invite, and `Q` of every session, in memory and in the tables. -/
structure Accounted (st : AppState) (P : Invite → Prop) (Q : SessionRecord → Prop) (w : World) : Prop where
  consistent : w.Consistent
  invites : ∀ {k inv}, w.data.invites.get k = some inv → P inv
  sessions : ∀ {k x}, w.data.sessions.get k = some x → Q x
  inviteRows : ∀ r ∈ w.db.invites, ∃ inv, r = inviteRow st.formats inv ∧ P inv
  sessionRows : ∀ r ∈ w.db.sessions, ∃ x ma mb, r = sessionRow st.formats x ma mb ∧ Q x

/-- What the steps of a run have put in, and what is in the tables. -/
structure Written (st : AppState) (P : Invite → Prop) (Q : SessionRecord → Prop) (reqs : List Request)
    (p : ApiPool) : Prop where
  inserted : ∀ {i t inv}, (⟨i, t, .invitesInsert inv, .ok ()⟩ : ApiStep) ∈ p.log → P inv ∨ AskedFor st reqs p.log inv
  left : ∀ {e x}, e ∈ p.log → leftBy e = some x → Q x ∨ Begun st P reqs p.log x
  inviteRows : ∀ r ∈ p.state.db.invites, ∃ inv, r = inviteRow st.formats inv ∧ (P inv ∨ AskedFor st reqs p.log inv)
  sessionRows : ∀ r ∈ p.state.db.sessions, ∃ x ma mb, r = sessionRow st.formats x ma mb ∧
    (Q x ∨ Begun st P reqs p.log x)

theorem Accounted.mono {st : AppState} {P P' : Invite → Prop} {Q Q' : SessionRecord → Prop} {w : World}
    (h : Accounted st P Q w) (hP : ∀ inv, P inv → P' inv) (hQ : ∀ x, Q x → Q' x) : Accounted st P' Q' w where
  consistent := h.consistent
  invites hget := hP _ (h.invites hget)
  sessions hget := hQ _ (h.sessions hget)
  inviteRows r hr := by
    obtain ⟨inv, heq, hinv⟩ := h.inviteRows r hr
    exact ⟨inv, heq, hP _ hinv⟩
  sessionRows r hr := by
    obtain ⟨x, ma, mb, heq, hx⟩ := h.sessionRows r hr
    exact ⟨x, ma, mb, heq, hQ _ hx⟩

/-! ## One call -/

theorem inviteRows_after {F : Formats} {q : Stmt} {db : Db} {r : InviteRow} (h : r ∈ (q.run F db).2.invites) :
    r ∈ db.invites ∨ ∃ inv, q = .saveInvite inv ∧ r = inviteRow F inv := by
  unfold Stmt.run at h
  split at h
  · cases q with
    | saveInvite inv =>
      rcases mem_replaceRow.1 h with ⟨hr, -⟩ | hr
      · exact .inl hr
      · exact .inr ⟨inv, rfl, hr⟩
    | deleteInvite id => exact .inl (List.mem_of_mem_filter h)
    | insertDog d =>
      simp only [Stmt.effect] at h
      split at h <;> exact .inl h
    | _ => exact .inl h
  · exact .inl h

theorem sessionRows_after {F : Formats} {q : Stmt} {db : Db} {r : SessionRow} (h : r ∈ (q.run F db).2.sessions) :
    r ∈ db.sessions ∨ ∃ x ma mb, q = .saveSession x ma mb ∧ r = sessionRow F x ma mb := by
  unfold Stmt.run at h
  split at h
  · cases q with
    | saveSession x ma mb =>
      rcases mem_replaceRow.1 h with ⟨hr, -⟩ | hr
      · exact .inl hr
      · exact .inr ⟨x, ma, mb, rfl, hr⟩
    | deleteSession id => exact .inl (List.mem_of_mem_filter h)
    | insertDog d =>
      simp only [Stmt.effect] at h
      split at h <;> exact .inl h
    | _ => exact .inl h
  · exact .inl h

section

variable {st : AppState} {w : World} {t : DateTime}

theorem get_inserted {inv : Invite} (h : (exec st t (.invitesInsert inv) w).1 = .ok ()) :
    (exec st t (.invitesInsert inv) w).2.data.invites.get inv.id = some inv := by
  simp only [exec] at h ⊢
  split at h
  · rename_i s hs
    show s.get inv.id = some inv
    rw [InviteStore.get_insert hs, if_pos rfl]
  · cases h

/-- What a step left is in the store after it. -/
theorem get_leftBy {i : Nat} {c : Call} {x : SessionRecord} (h : leftBy ⟨i, t, c, (exec st t c w).1⟩ = some x) :
    ∃ k, (exec st t c w).2.data.sessions.get k = some x := by
  cases c with
  | sessionsInsert y =>
    cases hs : w.data.sessions.insert y with
    | error e =>
      simp only [exec, hs] at h
      cases h
    | ok s =>
      simp only [exec, hs] at h ⊢
      obtain rfl : y = x := Option.some.inj h
      exact ⟨y.id, by show s.get y.id = some y; rw [SessionStore.get_insert hs, if_pos rfl]⟩
  | sessionsUpdate id f =>
    have hfst : (w.data.sessions.get id).map f = some x := (SessionStore.update_fst _ _ _).symm.trans h
    refine ⟨id, ?_⟩
    show (w.data.sessions.update id f).2.get id = some x
    rw [SessionStore.get_update, if_pos rfl]
    exact hfst
  | setMediaReady id d ready =>
    have htold : (w.data.sessions.setMediaReady id d ready).1.map (·.2) = some x := h
    refine ⟨id, ?_⟩
    show (w.data.sessions.setMediaReady id d ready).2.get id = some x
    rcases SessionStore.setMediaReady_cases w.data.sessions id d ready with
      ⟨hs, -⟩ | ⟨y, e, e', s', -, -, -, hs, -, -, hget⟩
    · rw [hs] at htold
      cases htold
    · rw [hs] at htold ⊢
      rw [hget, if_pos rfl]
      exact htold
  | _ => cases h

variable {P : Invite → Prop} {Q : SessionRecord → Prop} {reqs : List Request}

/-- **A call keeps what is written accounted for**: a row is written of what was put in before. -/
theorem written_step (hQ : ∀ {x y}, x.Alike y → Q y → Q x) {p : ApiPool} (hJ : Consenting st P Q reqs p)
    (hW : Written st P Q reqs p) {i : Nat} {c : Call} (k : c.Resp → Prog Call.Resp Reply)
    (hq : ConsentsNext st reqs i (own i p.log) c) :
    Written st P Q reqs ⟨(exec st t c p.state).2, p.threads.set i (k (exec st t c p.state).1),
      p.log ++ [⟨i, t, c, (exec st t c p.state).1⟩]⟩ := by
  have hJ' := @consenting_step _ _ _ _ (fun hkin => hQ hkin.alike) _ hJ _ t _ k hq
  obtain ⟨r, hr, -, hnext⟩ := hq
  have hown : own i p.log ⊆ p.log := fun e he => (Interleave.mem_own.1 he).1
  have hgrow : p.log <+: p.log ++ [⟨i, t, c, (exec st t c p.state).1⟩] := List.prefix_append _ _
  refine ⟨?_, ?_, ?_, ?_⟩
  · intro j t' inv hmem
    rcases List.mem_append.1 hmem with hmem | hmem
    · exact (hW.inserted hmem).imp_right (·.mono hgrow)
    · obtain ⟨-, -, hcmd, hresp⟩ := Step.mk.inj (List.mem_singleton.1 hmem)
      cases hcmd
      exact hJ'.invites (get_inserted (eq_of_heq hresp).symm)
  · intro e x hmem hleft
    rcases List.mem_append.1 hmem with hmem | hmem
    · exact (hW.left hmem hleft).imp_right (·.mono hgrow)
    · obtain rfl := List.mem_singleton.1 hmem
      obtain ⟨key, hget⟩ := get_leftBy hleft
      exact hJ'.sessions hget
  · intro row hrow
    have hold : row ∈ p.state.db.invites → ∃ inv, row = inviteRow st.formats inv ∧
        (P inv ∨ AskedFor st reqs (p.log ++ [⟨i, t, c, (exec st t c p.state).1⟩]) inv) := by
      intro hmem
      obtain ⟨inv, heq, hinv⟩ := hW.inviteRows row hmem
      exact ⟨inv, heq, hinv.imp_right (·.mono hgrow)⟩
    rw [exec_db] at hrow
    cases c with
    | sql q =>
      rcases inviteRows_after hrow with hmem | ⟨inv, rfl, heq⟩
      · exact hold hmem
      · obtain ⟨t', hins⟩ := hnext
        exact ⟨inv, heq, (hW.inserted (hown hins)).imp_right (·.mono hgrow)⟩
    | _ => exact hold hrow
  · intro row hrow
    have hold : row ∈ p.state.db.sessions → ∃ x ma mb, row = sessionRow st.formats x ma mb ∧
        (Q x ∨ Begun st P reqs (p.log ++ [⟨i, t, c, (exec st t c p.state).1⟩]) x) := by
      intro hmem
      obtain ⟨x, ma, mb, heq, hx⟩ := hW.sessionRows row hmem
      exact ⟨x, ma, mb, heq, hx.imp_right (·.mono hgrow)⟩
    rw [exec_db] at hrow
    cases c with
    | sql q =>
      rcases sessionRows_after hrow with hmem | ⟨x, ma, mb, rfl, heq⟩
      · exact hold hmem
      · obtain ⟨e, he, hleft⟩ := hnext
        exact ⟨x, ma, mb, heq, (hW.left (hown he) hleft).imp_right (·.mono hgrow)⟩
    | _ => exact hold hrow

/-! ## One process -/

/-- **A process at work** adds to what is accounted for only what it was asked. -/
theorem accounted_reached (hQ : ∀ {x y}, x.Alike y → Q y → Q x) (h : Accounted st P Q w)
    (sched : List (Nat × DateTime)) :
    Accounted st (fun inv => P inv ∨ AskedFor st reqs (reached st w reqs sched).log inv)
      (fun x => Q x ∨ Begun st P reqs (reached st w reqs sched).log x) (reached st w reqs sched).state := by
  have h0 : Written st P Q reqs (Pool.start w (reqs.map (handle st)) : ApiPool) := by
    refine ⟨fun hmem => absurd hmem List.not_mem_nil, fun hmem => absurd hmem List.not_mem_nil, ?_, ?_⟩
    · intro r hr
      obtain ⟨inv, heq, hinv⟩ := h.inviteRows r hr
      exact ⟨inv, heq, .inl hinv⟩
    · intro r hr
      obtain ⟨x, ma, mb, heq, hx⟩ := h.sessionRows r hr
      exact ⟨x, ma, mb, heq, .inl hx⟩
  have hany : (Pool.start w (reqs.map (handle st)) : ApiPool).Meets (exec st) (fun _ _ => True) sched :=
    Pool.meets_iff.2 (fun _ _ _ => trivial)
  obtain ⟨hJ, hW⟩ := (Pool.run_inv (J := fun p => Consenting st P Q reqs p ∧ Written st P Q reqs p)
    (fun _ _ _ _ k hI _ _ hq _ =>
      ⟨consenting_step (fun hkin => hQ hkin.alike) hI.1 k hq, written_step hQ hI.1 hI.2 k hq⟩) sched _
    (requests_consent st reqs w) ⟨consenting_start h.consistent h.invites h.sessions, h0⟩ hany).2
  exact ⟨hJ.consistent, hJ.invites, hJ.sessions, hW.inviteRows, hW.sessionRows⟩

/-! ## The next process -/

/-- What every turn of a load loop keeps, for rows of a kind. -/
theorem foldlM_keeps {σ ρ : Type} {f : σ → ρ → Option σ} {I : σ → Prop} {R : ρ → Prop}
    (h : ∀ s r s', R r → I s → f s r = some s' → I s') :
    ∀ {rows : List ρ} {s s' : σ}, (∀ r ∈ rows, R r) → I s → rows.foldlM f s = some s' → I s'
  | [], _, _, _, hs, e => Option.some.inj e ▸ hs
  | r :: rows, s, _, hR, hs, e => by
    rw [List.foldlM_cons] at e
    obtain ⟨s₁, h₁, e⟩ := Option.bind_eq_some_iff.1 e
    exact foldlM_keeps h (fun r' hr' => hR r' (List.mem_cons_of_mem r hr')) (h s r s₁ (hR r List.mem_cons_self) hs h₁) e

section

variable {F : Formats} (hF : F.LawfulIds) {now : DateTime}
include hF

theorem loadInvite_keeps (hP : ∀ {inv inv'}, inv.Alike inv' → P inv' → P inv) {s s' : InviteStore} {r : InviteRow}
    (hr : ∃ inv, r = inviteRow F inv ∧ P inv) (hs : ∀ k inv, s.get k = some inv → P inv)
    (h : loadInvite F now s r = some s') : ∀ k inv, s'.get k = some inv → P inv := by
  obtain ⟨inv, rfl, hinv⟩ := hr
  unfold loadInvite at h
  rw [inviteOfRow_inviteRow hF] at h
  intro k y hy
  cases hi : s.insert (inv.reread F now) with
  | ok s₁ =>
    rw [Option.bind_eq_bind, Option.bind_some, hi] at h
    obtain rfl : s₁ = s' := Option.some.inj h
    rw [InviteStore.get_insert hi] at hy
    split at hy
    · obtain rfl : inv.reread F now = y := Option.some.inj hy
      exact hP (inv.reread_alike F now) hinv
    · exact hs k y hy
  | error m =>
    rw [Option.bind_eq_bind, Option.bind_some, hi] at h
    obtain rfl : s = s' := Option.some.inj h
    exact hs k y hy

theorem loadSession_keeps (hQ : ∀ {x y}, x.Alike y → Q y → Q x) {s s' : SessionStore} {r : SessionRow}
    (hr : ∃ x ma mb, r = sessionRow F x ma mb ∧ Q x) (hs : ∀ k x, s.get k = some x → Q x)
    (h : loadSession F now s r = some s') : ∀ k x, s'.get k = some x → Q x := by
  obtain ⟨x, ma, mb, rfl, hx⟩ := hr
  unfold loadSession at h
  rw [sessionOfRow_sessionRow hF] at h
  obtain rfl := Option.some.inj h
  have mark : ∀ {s : SessionStore} (b : Bool) (d : DogId), (∀ k y, s.get k = some y → Q y) →
      ∀ k y, (if b = true then (s.setMediaReady x.id d true).2 else s).get k = some y → Q y := by
    intro s b d hs k y hy
    split at hy
    · rcases SessionStore.setMediaReady_cases s x.id d true with ⟨h, -⟩ | ⟨z, -, e', s', hz, -, -, h, -, -, hget⟩
      · rw [h] at hy
        exact hs k y hy
      · rw [h, hget] at hy
        split at hy
        · obtain rfl := Option.some.inj hy
          exact hQ (SessionRecord.Kin.promote e' z).alike (hs x.id z hz)
        · exact hs k y hy
    · exact hs k y hy
  unfold restoreSession
  refine mark _ _ (mark _ _ (fun k y hy => ?_))
  cases hi : s.insert (x.reread F now) with
  | ok s₁ =>
    rw [hi, SessionStore.get_insert hi] at hy
    split at hy
    · obtain rfl : x.reread F now = y := Option.some.inj hy
      exact hQ (x.reread_alike F now) hx
    · exact hs k y hy
  | error m =>
    rw [hi] at hy
    exact hs k y hy

end

/-- **A process that loads the tables** accounts for what it loads as the one that wrote them did. -/
theorem Accounted.killed (hF : st.formats.LawfulIds) (hP : ∀ {inv inv'}, inv.Alike inv' → P inv' → P inv)
    (hQ : ∀ {x y}, x.Alike y → Q y → Q x) (h : Accounted st P Q w) (hw : w.db.Whole st.formats) {now : DateTime}
    {data : AppData} (hd : loadInto st.formats now w.db {} = some data) :
    Accounted st P Q { data, db := w.db, nextUuid := w.nextUuid } := by
  obtain ⟨data', hd', hinvites, hsessions⟩ := hw.load now
  cases hd.symm.trans hd'
  refine ⟨⟨loadInvites_consistent hinvites, loadSessions_consistent hsessions⟩, ?_, ?_, h.inviteRows, h.sessionRows⟩
  · intro k inv hget
    have hempty : ∀ k inv, ({} : InviteStore).get k = some inv → P inv := fun k inv h => by cases h
    exact foldlM_keeps (I := fun s : InviteStore => ∀ k inv, s.get k = some inv → P inv)
      (fun _ _ _ hr hs e => loadInvite_keeps hF hP hr hs e) h.inviteRows hempty hinvites k inv hget
  · intro k x hget
    have hempty : ∀ k x, ({} : SessionStore).get k = some x → Q x := fun k x h => by cases h
    exact foldlM_keeps (I := fun s : SessionStore => ∀ k x, s.get k = some x → Q x)
      (fun _ _ _ hr hs e => loadSession_keeps hF hQ hr hs e) h.sessionRows hempty hsessions k x hget

end

/-! ## A whole past -/

/-- The invite was sent in one of the eras. -/
def SentIn (st : AppState) (es : List Era) (inv : Invite) : Prop :=
  ∃ e ∈ es, ∃ inv', inv.Alike inv' ∧ Sent st e.start e.reqs e.sched inv'

/-- The session was put in, in one of the eras, when the invite was taken up. -/
def TakenUpIn (st : AppState) (es : List Era) (inv : Invite) (x : SessionRecord) : Prop :=
  ∃ e ∈ es, ∃ y, x.Alike y ∧ TakenUp st e.start e.reqs e.sched inv y

/-- The session is by the will of both sides: an invite that was sent has been taken up. -/
def ConsentedIn (st : AppState) (es : List Era) (x : SessionRecord) : Prop :=
  ∃ inv, SentIn st es inv ∧ TakenUpIn st es inv x

section

variable {st : AppState} {es : List Era} {w : World}

theorem SentIn.congr {inv inv' : Invite} (h : inv.Alike inv') (hs : SentIn st es inv') : SentIn st es inv := by
  obtain ⟨e, he, inv₀, hlike, hsent⟩ := hs
  exact ⟨e, he, inv₀, h.trans hlike, hsent⟩

theorem ConsentedIn.congr {x y : SessionRecord} (h : x.Alike y) (hc : ConsentedIn st es y) : ConsentedIn st es x := by
  obtain ⟨inv, hsent, e, he, z, hlike, htaken⟩ := hc
  exact ⟨inv, hsent, e, he, z, h.trans hlike, htaken⟩

theorem SentIn.grow {e : Era} {inv : Invite} (h : SentIn st es inv) : SentIn st (es ++ [e]) inv := by
  obtain ⟨e₀, he, hsent⟩ := h
  exact ⟨e₀, List.mem_append_left _ he, hsent⟩

theorem ConsentedIn.grow {e : Era} {x : SessionRecord} (h : ConsentedIn st es x) : ConsentedIn st (es ++ [e]) x := by
  obtain ⟨inv, hsent, e₀, he, htaken⟩ := h
  exact ⟨inv, hsent.grow, e₀, List.mem_append_left _ he, htaken⟩

theorem Past.whole (hF : st.formats.LawfulIds) (h : Past st es w) : w.db.Whole st.formats := by
  induction h with
  | first => exact ⟨legible_empty _ _, mem_allTables⟩
  | works h reqs sched ih =>
    exact Pool.run_state (I := fun w : World => w.db.Whole st.formats) (fun t c _ hw => exec_whole hF t c hw) sched ih
  | killed h now data hd ih => exact ih

/-- What the last era has put in is accounted for by it. -/
theorem sentIn_last {w₀ : World} {reqs : List Request} {sched : List (Nat × DateTime)} {inv : Invite}
    (h : SentIn st es inv ∨ AskedFor st reqs (reached st w₀ reqs sched).log inv) :
    SentIn st (es ++ [⟨w₀, reqs, sched⟩]) inv := by
  rcases h with hbefore | hasked
  · exact hbefore.grow
  · exact ⟨_, List.mem_append_right _ (List.mem_singleton_self _), inv, ⟨rfl, rfl, rfl⟩, hasked.sent⟩

/-- **Memory and tables are accounted for by the past**, whenever its processes were killed. -/
theorem Past.accounted (hF : st.formats.LawfulIds) (h : Past st es w) :
    Accounted st (SentIn st es) (ConsentedIn st es) w := by
  induction h with
  | first =>
    refine ⟨⟨.empty, .empty⟩, fun {k inv} h => ?_, fun {k x} h => ?_, fun _ h => absurd h List.not_mem_nil,
      fun _ h => absurd h List.not_mem_nil⟩
    · cases h
    · cases h
  | @works es w h reqs sched ih =>
    refine (accounted_reached ConsentedIn.congr ih sched).mono (fun inv hinv => sentIn_last hinv) (fun x hx => ?_)
    rcases hx with hbefore | ⟨inv, y, hasked, htook, hkin⟩
    · exact hbefore.grow
    · exact ⟨inv, sentIn_last hasked, _, List.mem_append_right _ (List.mem_singleton_self _), y, hkin.alike,
        htook.takenUp⟩
  | killed h now data hd ih => exact ih.killed hF SentIn.congr ConsentedIn.congr (h.whole hF) hd

end

/-- **Killing device-api breaks nothing that matters.**  Whenever its processes were killed and however their requests
interleaved, the next one can be started, the stores of memory agree with themselves, so that no dog is in two invites
or in two sessions, and no dog is in contact but by a call of its caller's terminal and an accept of its callee's. -/
theorem crashes_survived (st : AppState) (hF : st.formats.LawfulIds) (es : List Era) (w : World) (h : Past st es w) :
    (∀ now, ∃ data, loadInto st.formats now w.db {} = some data ∧
      Past st es { data, db := w.db, nextUuid := w.nextUuid }) ∧
    w.Consistent ∧
    (∀ k inv, w.data.invites.get k = some inv → SentIn st es inv) ∧
    ∀ k x, w.data.sessions.get k = some x → ConsentedIn st es x := by
  have hacc := h.accounted hF
  refine ⟨fun now => ?_, hacc.consistent, fun _ _ => hacc.invites, fun _ _ => hacc.sessions⟩
  obtain ⟨data, hd, -⟩ := (h.whole hF).load now
  exact ⟨data, hd, h.killed now data hd⟩

/-- The process in which dogs 1 and 2 meet. -/
def metEra : Era := ⟨fresh, meeting.map (·.2), inOrder⟩

/-- What that process leaves when it is killed. -/
def metWorld : World := (reached bench metEra.start metEra.reqs metEra.sched).state

/-- What the next one loads. -/
def afterMet : Option AppData := loadInto bench.formats noon metWorld.db {}

theorem afterMet_loads : afterMet.isSome = true := by decide +kernel

theorem metWorld_past : Past bench [metEra] metWorld := .works .first metEra.reqs metEra.sched

theorem crashes_survived_met : ConsentedIn bench [metEra] firstSession :=
  (crashes_survived bench decimals_lawful.toLawfulIds [metEra]
    { data := afterMet.get afterMet_loads, db := metWorld.db, nextUuid := metWorld.nextUuid }
    (metWorld_past.killed noon _ (Option.some_get afterMet_loads).symm)).2.2.2 ⟨1⟩ firstSession (by decide +kernel)

end CanisLink
