import Optiflow.Lib.History
import Optiflow.Lib.Later
import Optiflow.Proof.KnownCalls
import Optiflow.Proof.Shares
import Optiflow.Proof.UploadStart

/-!
# Dead links

A share link that has expired, has reached its limit or was deleted is dead for good: whatever else
goes on, every request for its token that starts later is refused by both services
(`dead_link_refused`).
-/

namespace Optiflow

open Interleave Code UploadSvc ApiSvc

/-! ## The clock -/

theorem exec_clock {α : Type} {e : Stmt α} {o : Oracle} {s s' : Store} {a : α}
    (hx : exec o e s = some (a, s')) : s'.now = s.now := by
  cases e with
  | write w =>
    obtain ⟨db', -, rfl⟩ := exec_write hx
    rfl
  | newUUID =>
    simp only [exec] at hx
    split at hx
    · cases hx
    · obtain ⟨-, rfl⟩ := Prod.mk.inj (Option.some.inj hx)
      rfl
  | _ =>
    obtain ⟨-, rfl⟩ := Prod.mk.inj (Option.some.inj hx)
    rfl

theorem env_clock {v : EnvMove} {s s' : Store} (hv : v.run s = some s') : s.now ≤ s'.now := by
  cases v with
  | tick now =>
    simp only [EnvMove.run] at hv
    split at hv
    · next hle =>
      obtain rfl := Option.some.inj hv
      exact hle
    · cases hv
  | _ =>
    simp only [EnvMove.run] at hv
    split at hv
    · obtain rfl := Option.some.inj hv
      exact le_rfl
    · cases hv

/-! ## Dead tokens -/

/-- `resolveActiveShare` refuses the share. -/
def Share.inactive (sh : Share) (now : Time) : Prop :=
  (∃ expiresAt, sh.expiresAt = some expiresAt ∧ now > expiresAt) ∨
    ∃ maxDownloads, sh.maxDownloads = some maxDownloads ∧ sh.downloadCount ≥ maxDownloads

/-- The token was given to a share, and no share that it resolves to is active. -/
structure DeadToken (token : GoString) (s : Store) : Prop where
  used : s.db.tokenUsed token = true
  inactive : ∀ x ∈ s.db.shares, x.token = token → x.inactive s.now

/-- The request is one for the token. -/
def Request.asksFor (token : GoString) : Request → Prop
  | .shareDownloadURL t _ => t = token
  | .getPublicShare t => t = token
  | _ => False

/-- How a request for a dead token is answered; the second answer is that of a failing database. -/
def Reply.refused (r : Reply) : Prop :=
  r = .error 404 "share link not found or expired" ∨ r = .error 500 "could not resolve share"

section Token

variable {deps : Deps} {token : GoString} {s s' : Store} {sh : Share} {q : Request}

theorem inactive_mono {now now' : Time} (h : sh.inactive now) (hle : now ≤ now') : sh.inactive now' :=
  h.imp_left fun ⟨expiresAt, hsome, hlt⟩ => ⟨expiresAt, hsome, lt_of_lt_of_le hlt hle⟩

/-- Counting a download revives nothing. -/
theorem inactive_downloaded {now : Time} (h : sh.inactive now) : sh.downloaded.inactive now :=
  h.imp_right fun ⟨maxDownloads, hsome, hle⟩ =>
    ⟨maxDownloads, hsome, hle.trans (Int.le_add_one (le_refl sh.downloadCount))⟩

theorem DeadToken.congr (h : DeadToken token s) (hdb : s'.db = s.db) (hnow : s.now ≤ s'.now) :
    DeadToken token s' where
  used := hdb ▸ h.used
  inactive x hx htoken := inactive_mono (h.inactive x (hdb ▸ hx) htoken) hnow

theorem DeadToken.exec (h : DeadToken token s) {α : Type} {e : Stmt α} {o : Oracle} {a : α}
    (hx : exec o e s = some (a, s')) : DeadToken token s' ∧ s.now ≤ s'.now := by
  cases e with
  | write w =>
    obtain ⟨db', hw, rfl⟩ := exec_write hx
    refine ⟨⟨Write.tokenUsed hw h.used, fun x hmem htoken => ?_⟩, le_rfl⟩
    obtain ⟨y, hy, rfl | rfl⟩ | ⟨-, hfresh, -⟩ := Write.share_cases hw hmem
    · exact h.inactive x hy htoken
    · exact inactive_downloaded (h.inactive y hy htoken)
    · rw [htoken, h.used] at hfresh
      cases hfresh
  | _ =>
    have hnow : s.now ≤ s'.now := (exec_clock hx).ge
    exact ⟨h.congr (exec_db rfl hx) hnow, hnow⟩

theorem deadToken_keeps : (services deps).Keeps (DeadToken token) fun s t => s.now ≤ t.now where
  refl _ := le_rfl
  trans := le_trans
  start hq hs := by
    rw [services_launch] at hq
    obtain ⟨hdb, -, -, hnow, -⟩ := launch_cases hq
    exact ⟨hs.congr hdb hnow.ge, hnow.ge⟩
  call hx hs := hs.exec hx
  env hv hs := by
    rw [services_env] at hv
    have hnow := env_clock hv
    exact ⟨hs.congr (env_cases hv).1 hnow, hnow⟩

/-- Whoever asks for a dead token is refused. -/
def refusing (deps : Deps) (token : GoString) : Outline (services deps) :=
  .standing _ (DeadToken token) (fun s t => s.now ≤ t.now) fun q r => q.asksFor token → r.refused

/-- A dead token resolves to nothing. -/
theorem refusing_resolveActiveShare {k : Except DbError Share → Prog Stmt Reply}
    (h : ∀ e t, (refusing deps token).Safe q (k (.error e)) t) :
    (refusing deps token).Safe q (resolveActiveShare token k) s := by
  refine safe_query (fun _ _ _ => trivial) fun o t _ ht _ => ?_
  cases ha : (Query.share token).run o t.db with
  | error e => exact h e t
  | ok x =>
    obtain ⟨hmem, htoken⟩ := Query.share_ok ha
    have hinactive := ht.inactive x hmem htoken
    have hlimit : (∀ expiresAt, x.expiresAt = some expiresAt → ¬t.now > expiresAt) →
        resolveActiveShare.limit x = .error .recordNotFound := by
      intro hexp
      obtain ⟨expiresAt, hsome, hlt⟩ | ⟨maxDownloads, hsome, hle⟩ := hinactive
      · exact absurd hlt (hexp expiresAt hsome)
      · simp only [resolveActiveShare.limit, hsome, if_pos hle]
    cases hexp : x.expiresAt with
    | none =>
      have hnone := hlimit fun _ hsome => by rw [hexp] at hsome; cases hsome
      simpa [hexp, hnone] using h _ t
    | some expiresAt =>
      have key : (refusing deps token).Safe q (timeNow fun now =>
          k (if now > expiresAt then .error .recordNotFound else resolveActiveShare.limit x)) t := by
        refine safe_call (fun _ _ _ => trivial) fun now u o' u' hnow _ _ hx _ => ?_
        obtain ⟨rfl, rfl⟩ : now = u.now ∧ u' = u := by
          simp only [exec, Option.some.injEq, Prod.mk.injEq] at hx
          exact ⟨hx.1.symm, hx.2.symm⟩
        split
        · exact h _ _
        · next hle =>
          rw [hlimit fun t' hsome hlt => ?_]
          · exact h _ _
          · obtain rfl := Option.some.inj (hexp.symm.trans hsome)
            exact hle (lt_of_lt_of_le hlt hnow)
      simpa [hexp] using key

theorem refusing_handler (q : Request) (s : Store) :
    (refusing deps token).Safe q ((services deps).handler q) s := by
  have hfound : ∀ (e : DbError) (k : Share → Prog Stmt Reply) (t : Store),
      (refusing deps token).Safe q (found "share link not found or expired" "could not resolve share"
        (.error e) k) t := by
    intro e k t
    cases e with
    | recordNotFound => exact fun _ => Or.inl rfl
    | other => exact fun _ => Or.inr rfl
  by_cases hq : q.asksFor token
  · cases q with
    | shareDownloadURL t body =>
      obtain rfl : t = token := hq
      exact refusing_resolveActiveShare fun e u => hfound e _ u
    | getPublicShare t =>
      obtain rfl : t = token := hq
      exact refusing_resolveActiveShare fun e u => hfound e _ u
    | _ => exact hq.elim
  · exact Outline.safe_of_trivial (fun _ _ => trivial) (fun _ h => absurd h hq) _ _

end Token

/-! ## How a token dies -/

/-- What a thread has done when it answers that a share was made or deleted. -/
def Settled : Request → List ServiceStep → Reply → Prop
  | .createShare userID id req, hist, .share resp => ∃ s o file user hash expiresAt limit,
      .call s (.createShare userID id req) o (.write (.createShare file user hash expiresAt limit))
        (.ok resp.share) ∈ hist
  | .deleteShare userID text, hist, .noContent => ∃ s o id k, UUID.parse text = some id ∧
      .call s (.deleteShare userID text) o (.write (.deleteShare id userID)) (.ok (k + 1)) ∈ hist
  | _, _, _ => True

/-- The share that a step makes. -/
def makesShare : ServiceStep → Option Share
  | .call _ _ _ (.write (.createShare _ _ _ _ _)) (.ok sh) => some sh
  | _ => none

/-- The share that a step deletes. -/
def deletesShare : ServiceStep → Option UUID
  | .call _ _ _ (.write (.deleteShare id _)) (.ok (_ + 1)) => some id
  | _ => none

/-- What a step has done to the links. -/
structure Ended (st : ServiceStep) (db : DB) : Prop where
  made : ∀ sh ∈ makesShare st, OnlyRow sh db
  deleted : ∀ id ∈ deletesShare st, db.shares.Used id ∧ ∀ x ∈ db.shares, x.id ≠ id

section Settled

variable {deps : Deps} {q : Request} {s s' : Store} {o : Oracle} {α : Type}

/-- Code that changes nothing, and answers early with errors only. -/
abbrev Errs (c : Handler α) : Prop := c.Over Stmt.looks fun r => r.isError = true

theorem errs_failIf (p : Prop) [Decidable p] (status : ℕ) (message : String) :
    Errs (failIf p status message) :=
  over_ite (over_exit rfl) (over_pure ())

theorem errs_shareExpiry (hours : Option Int64) : Errs (shareExpiry hours) := by
  cases hours with
  | none => exact over_pure _
  | some hours =>
    exact over_bind (errs_failIf _ _ _) fun _ => over_bind (over_call trivial) fun _ => over_pure _

theorem errs_shareLimit (maxDownloads : Option Int64) : Errs (shareLimit maxDownloads) := by
  cases maxDownloads with
  | none => exact over_pure _
  | some maxDownloads => exact over_bind (errs_failIf _ _ _) fun _ => over_pure _

theorem errs_sharePasswordHash (password : Option GoString) : Errs (sharePasswordHash password) := by
  match password with
  | none => exact over_pure none
  | some [] => exact over_pure none
  | some (c :: rest) =>
    refine over_bind (over_call trivial) fun a => ?_
    cases a with
    | none => exact over_exit rfl
    | some hash => exact over_pure _

/-- Reading a request's program for what it has done when it answers. -/
abbrev Settles (deps : Deps) (q : Request) (p : Prog Stmt Reply) (hist : List ServiceStep) : Prop :=
  (services deps).Recalls (fun _ _ _ _ => True) Settled q p hist

theorem settled_error (hist : List ServiceStep) (status : ℕ) (message : String) :
    Settles deps q (.ret (.error status message)) hist := by
  cases q <;> trivial

theorem settles_over {c : Handler α} (hc : Errs c) {k : α → Prog Stmt Reply}
    (hk : ∀ a hist, Settles deps q (k a) hist) (hist : List ServiceStep) :
    Settles deps q (c k) hist := by
  refine Machine.recalls_over hc (fun _ _ _ => trivial) (fun r hr hist => ?_) hk hist
  cases r with
  | error status message => exact (settled_error hist status message : Settles deps q _ hist)
  | _ => cases hr

theorem settles_createShare (userID : UUID) (id : GoString) (req : ShareCreateRequest)
    (hist : List ServiceStep) :
    Settles deps (.createShare userID id req) (createShare userID id req .ret) hist := by
  refine Early.parseID (P := fun p => Settles deps _ p hist) (settled_error hist) fun fileID _ => ?_
  refine ⟨trivial, fun o a s s' _ => ?_⟩
  refine Early.foundOr (P := fun p => Settles deps _ p _) (settled_error _) fun file _ => ?_
  refine ⟨trivial, fun o generated s s' _ => ?_⟩
  refine Early.failIf (P := fun p => Settles deps _ p _) (settled_error _) fun _ => ?_
  refine settles_over (errs_shareExpiry _) (fun expiresAt => ?_) _
  refine settles_over (errs_shareLimit _) fun maxDownloads => ?_
  refine settles_over (errs_sharePasswordHash _) fun passwordHash hist => ?_
  refine ⟨trivial, fun o a s s' _ => ?_⟩
  refine Early.foundOr (P := fun p => Settles deps _ p _) (settled_error _) fun share hshare => ?_
  subst hshare
  exact ⟨s, o, _, _, _, _, _, List.mem_cons_self⟩

theorem settles_deleteShare (userID : UUID) (id : GoString) (hist : List ServiceStep) :
    Settles deps (.deleteShare userID id) (deleteShare userID id .ret) hist := by
  refine Early.parseID (P := fun p => Settles deps _ p hist) (settled_error hist) fun shareID hid => ?_
  refine ⟨trivial, fun o a s s' _ => ?_⟩
  refine Early.foundOr (P := fun p => Settles deps _ p _) (settled_error _) fun k hk => ?_
  subst hk
  refine Early.failIf (P := fun p => Settles deps _ p _) (settled_error _) fun hne => ?_
  obtain ⟨k, rfl⟩ := Nat.exists_eq_succ_of_ne_zero hne
  exact ⟨s, o, shareID, k, hid, List.mem_cons_self⟩

theorem settles_handler (q : Request) (hist : List ServiceStep) :
    Settles deps q ((services deps).handler q) hist := by
  cases q with
  | createShare userID id req => exact settles_createShare userID id req hist
  | deleteShare userID id => exact settles_deleteShare userID id hist
  | _ =>
    exact Machine.recalls_of_makes (Prog.makes_of_forall (fun _ _ => trivial) _)
      (fun _ r => by cases r <;> trivial) hist

/-! ### What is left of a link -/

/-- A step that neither makes nor deletes a share. -/
theorem ended_of_none {st : ServiceStep} {db : DB} (hmade : makesShare st = none)
    (hdeleted : deletesShare st = none) : Ended st db where
  made sh hsh := by
    rw [hmade] at hsh
    cases hsh
  deleted id hid := by
    rw [hdeleted] at hid
    cases hid

theorem Ended.exec {st : ServiceStep} {e : Stmt α} {a : α} (h : Ended st s.db)
    (hx : exec o e s = some (a, s')) : Ended st s'.db := by
  refine ⟨fun sh hsh => (h.made sh hsh).exec hx, fun id hid => ?_⟩
  obtain ⟨hused, hgone⟩ := h.deleted id hid
  refine ⟨hused.mono (exec_grows hx).shares, fun x hmem hxid => ?_⟩
  cases e with
  | write w =>
    obtain ⟨db', hw, rfl⟩ := exec_write hx
    obtain ⟨y, hy, rfl | rfl⟩ | ⟨hnew, -, -⟩ := Write.share_cases hw hmem
    · exact hgone x hy hxid
    · exact hgone y hy hxid
    · exact hnew (hxid ▸ hused)
  | _ =>
    rw [exec_db rfl hx] at hmem
    exact hgone x hmem hxid

/-- A new share is the only one with its token and its id. -/
theorem onlyRow_of_createShare {fileID userID : UUID} {passwordHash : Option GoString}
    {expiresAt : Option Time} {maxDownloads : Option ℤ} {sh : Share} {issued : List UUID} {db db' : DB}
    (h : (Write.createShare fileID userID passwordHash expiresAt maxDownloads).run o issued db =
      some (.ok sh, db')) : OnlyRow sh db' := by
  obtain ⟨hfails, -⟩ | ⟨share, rfl, hu, htoken, hsh, rfl⟩ := Write.createShare_cases h
  · cases hfails
  obtain rfl := Except.ok.inj hsh
  refine ⟨fun x hx hid => ?_, ?_, ?_⟩
  · rcases (Table.mem_insert hu).1 hx with rfl | hx
    · rfl
    · rcases hid with hid | hid
      · have hused : db.tokenUsed o.token = true := DB.tokenUsed_iff.2 (Or.inl ⟨x, hx, hid⟩)
        rw [hused] at htoken
        cases htoken
      · have hused := Table.used_of_mem hx
        rw [show key x = o.uuid from hid] at hused
        exact absurd hused hu
  · exact Table.used_of_mem ((Table.mem_insert hu).2 (Or.inl rfl))
  · exact DB.tokenUsed_iff.2 (Or.inl ⟨_, (Table.mem_insert hu).2 (Or.inl rfl), rfl⟩)

/-- A share that was deleted has no row. -/
theorem gone_of_deleteShare {id userID : UUID} {k : ℕ} {issued : List UUID} {db db' : DB}
    (h : (Write.deleteShare id userID).run o issued db = some (.ok (k + 1), db')) :
    db'.shares.Used id ∧ ∀ x ∈ db'.shares, x.id ≠ id := by
  obtain ⟨hfails, -⟩ | ⟨hk, rfl⟩ := Write.deleteShare_cases h
  · cases hfails
  obtain ⟨r, hr, howned⟩ := List.countP_pos_iff.1 (Nat.lt_of_lt_of_eq k.succ_pos (Except.ok.inj hk))
  have hid : r.id = id ∧ r.userID = userID := by simpa [DB.ownedShare] using howned
  refine ⟨hid.1 ▸ Table.used_of_mem (t := db.shares) hr, fun x hx hxid => ?_⟩
  obtain ⟨hmem, hkept⟩ := DB.mem_deleteShares.1 hx
  rw [Table.eq_of_key hmem hr (hxid.trans hid.1.symm), howned] at hkept
  cases hkept

theorem ended_call {e : Stmt α} {a : α} (hx : exec o e s = some (a, s')) :
    Ended (.call s q o e a) s'.db := by
  cases e with
  | write w =>
    obtain ⟨db', hw, rfl⟩ := exec_write hx
    cases w with
    | createShare fileID userID passwordHash expiresAt maxDownloads =>
      cases a with
      | error e => exact ended_of_none rfl rfl
      | ok share =>
        refine ⟨fun sh hsh => ?_, fun id hid => (by cases hid)⟩
        obtain rfl := Option.some.inj hsh
        exact onlyRow_of_createShare hw
    | deleteShare id userID =>
      match a with
      | .error _ => exact ended_of_none rfl rfl
      | .ok 0 => exact ended_of_none rfl rfl
      | .ok (k + 1) =>
        refine ⟨fun sh hsh => (by cases hsh), fun id' hid => ?_⟩
        obtain rfl := Option.some.inj hid
        exact gone_of_deleteShare hw
    | _ => exact ended_of_none rfl rfl
  | _ => exact ended_of_none rfl rfl

/-- What the steps of a run have done to the links lasts. -/
theorem ended_always (deps : Deps) (users : Table User) {c : Services}
    (h : (services deps).Reaches Machine.anySchedule (start (Store.fresh users)) c) :
    ∀ st ∈ c.trace, Ended st c.store.db := by
  refine (provenance_valid deps).since (K := fun st s => Ended st s.db) (C := fun _ => True) h
    (wellFormed_fresh users) (fun _ _ => trivial) (fun _ _ => trivial) ?_ ?_ ?_
  · intro q s s' _ _ _ hq
    rw [services_launch] at hq
    rw [(launch_cases hq).1]
    exact ⟨ended_of_none rfl rfl, fun _ hst => hst⟩
  · intro q o α e a s s' _ _ _ _ hx
    rw [services_exec] at hx
    exact ⟨ended_call hx, fun _ hst => hst.exec hx⟩
  · intro v s s' _ _ _ hv
    rw [services_env] at hv
    rw [(env_cases hv).1]
    exact ⟨ended_of_none rfl rfl, fun _ hst => hst⟩

end Settled

/-! ## Every run -/

/-- **A dead link is refused**: when a share was made, and has expired, has reached its limit or was
deleted by its owner, every request for its token that starts later is answered 404, or 500 by a failing
database. -/
theorem dead_link_refused (deps : Deps) (users : Table User) {c c' : Services}
    (h : (services deps).Reaches Machine.anySchedule (start (Store.fresh users)) c)
    (h' : (services deps).Reaches Machine.anySchedule c c')
    {userID : UUID} {id : GoString} {req : ShareCreateRequest} {resp : ShareResponse}
    (hmade : ⟨.createShare userID id req, .ret (.share resp)⟩ ∈ c.threads)
    (hdead : (∃ expiresAt, resp.share.expiresAt = some expiresAt ∧ c.store.now > expiresAt) ∨
      (∃ x ∈ c.store.db.shares, x.id = resp.share.id ∧
        ∃ maxDownloads, x.maxDownloads = some maxDownloads ∧ x.downloadCount ≥ maxDownloads) ∨
      ∃ user text, UUID.parse text = some resp.share.id ∧
        ⟨.deleteShare user text, .ret .noContent⟩ ∈ c.threads)
    {j : ℕ} {q : Request} {r : Reply} (hj : c.threads.length ≤ j)
    (hth : c'.threads[j]? = some ⟨q, .ret r⟩) (hq : q.asksFor resp.share.token) : r.refused := by
  have hended := ended_always deps users h
  have hrecalls := h.recalls fun q s s' _ => settles_handler q [.start s q]
  obtain ⟨hist, hsub, s, o, fileID, user, passwordHash, expiresAt, maxDownloads, hst⟩ :=
    hrecalls _ hmade
  have honly : OnlyRow resp.share c.store.db := (hended _ (hsub.subset hst)).made _ rfl
  -- The rows that the token resolves to are the share's.
  have hrow : ∀ x ∈ c.store.db.shares, x.token = resp.share.token →
      x = resp.share.withCount x.downloadCount := fun x hx htoken => honly.row x hx (Or.inl htoken)
  have hid : ∀ x ∈ c.store.db.shares, x.token = resp.share.token → x.id = resp.share.id :=
    fun x hx htoken => by rw [hrow x hx htoken]; rfl
  refine deadToken_keeps.later (fun q s _ => refusing_handler q s) h' ⟨honly.token, ?_⟩ hj hth hq
  intro x hx htoken
  obtain ⟨expiresAt, hsome, hlt⟩ | ⟨y, hy, hyid, hlimit⟩ | ⟨user, text, hparse, hdeleted⟩ := hdead
  · have hexpires : x.expiresAt = resp.share.expiresAt := by rw [hrow x hx htoken]; rfl
    exact Or.inl ⟨expiresAt, hexpires.trans hsome, hlt⟩
  · rw [Table.eq_of_key hx hy ((hid x hx htoken).trans hyid.symm)]
    exact Or.inr hlimit
  · obtain ⟨hist, hsub, s, o, id, k, hparse', hst⟩ := hrecalls _ hdeleted
    obtain rfl := Option.some.inj (hparse.symm.trans hparse')
    exact absurd (hid x hx htoken) (((hended _ (hsub.subset hst)).deleted _ rfl).2 x hx)

/-! ### A picture -/

/-- Alice starts an upload, makes a link to the file and deletes it. -/
def shareAndRevoke : List (Move Request Oracle EnvMove) :=
  [.start (.presign 1 (some ⟨lit "a.txt", 3, lit "text/plain", none⟩)), .step 0 {}, .step 0 {},
    .step 0 { uuid := 100 }, .start (.createShare 1 (text 100) ⟨none, none, none⟩), .step 1 {},
    .step 1 {}, .step 1 { uuid := 200, token := lit "token" }, .start (.deleteShare 1 (text 200)),
    .step 2 {}]

/-- The link was made and deleted. -/
def revoked (c : Services) : Bool :=
  match c.threads with
  | [_, ⟨.createShare _ _ _, .ret (.share resp)⟩, ⟨.deleteShare _ id, .ret .noContent⟩] =>
    resp.share.token = lit "token" && UUID.parse id = some resp.share.id
  | _ => false

/-- The fourth request is one for the link, and has been answered. -/
def askedAfter (c : Services) : Bool :=
  match c.threads with
  | [_, _, _, ⟨.shareDownloadURL token _, .ret _⟩] => token = lit "token"
  | _ => false

theorem dead_link_refused_revoked : ∃ c c' : Services, ∃ q r,
    (services plainDeps).Reaches Machine.anySchedule (start (Store.fresh aliceOnly)) c ∧
    (services plainDeps).Reaches Machine.anySchedule c c' ∧ c'.threads[3]? = some ⟨q, .ret r⟩ ∧
    q.asksFor (lit "token") ∧ r.refused := by
  let later : List (Move Request Oracle EnvMove) :=
    [.start (.shareDownloadURL (lit "token") none), .step 3 {}]
  obtain ⟨c, hc, hP⟩ := exists_run Machine.anySchedule shareAndRevoke
    (fun c => revoked c &&
      ((services plainDeps).runMoves Machine.anySchedule later c).elim false askedAfter) (by decide)
  obtain ⟨hrevoked, hlater⟩ := Bool.and_eq_true_iff.1 hP
  obtain ⟨c', hc', hasked⟩ := Machine.exists_reaches (services plainDeps) Machine.anySchedule c
    askedAfter later hlater
  unfold revoked at hrevoked
  split at hrevoked
  · next th userID id req resp user id' hthreads =>
    simp only [Bool.and_eq_true, decide_eq_true_eq] at hrevoked
    obtain ⟨htoken, hid⟩ := hrevoked
    unfold askedAfter at hasked
    split at hasked
    · next a b d token body r hthreads' =>
      obtain rfl := of_decide_eq_true hasked
      have hth : c'.threads[3]? = some ⟨.shareDownloadURL (lit "token") body, .ret r⟩ := by
        rw [hthreads']
        rfl
      refine ⟨c, c', _, r, hc, hc', hth, rfl, ?_⟩
      have hmade : ⟨.createShare userID id req, .ret (.share resp)⟩ ∈ c.threads := by simp [hthreads]
      have hdeleted : ⟨.deleteShare user id', .ret .noContent⟩ ∈ c.threads := by simp [hthreads]
      exact dead_link_refused plainDeps aliceOnly hc hc' hmade
        (Or.inr (Or.inr ⟨user, id', hid, hdeleted⟩)) (by rw [hthreads]; rfl) hth htoken.symm
    · cases hasked
  · cases hrevoked

end Optiflow
