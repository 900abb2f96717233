import Optiflow.Lib.Ledger
import Optiflow.Lib.Watch
import Optiflow.Proof.Rows
import Optiflow.Proof.Runs

/-!
# Download limits of shares

`shareDownloadURL` tests the limit and the expiry of a share on the row that it read first, makes a
URL and then counts the download.  Requests that read the row before any of them counts are all let
through, and a URL may be made after the share has expired.  As long as the share does not expire
between the tests of a request and its URL, and nobody uses up the limit between the SELECT of a request
and its counting, no more URLs are answered than the limit allows (`share_limit_kept`).
-/

namespace Optiflow

open Interleave UploadSvc

/-! ## The condition -/

/-- The expiry test of `resolveActiveShare`. -/
def Share.unexpired (sh : Share) (now : Time) : Bool :=
  match sh.expiresAt with
  | none => true
  | some expiresAt => !(now > expiresAt)

/-- The limit test of `resolveActiveShare`, on the row as it is. -/
def DB.underLimit (db : DB) (token : GoString) : Bool :=
  match (Query.share token).eval db with
  | .ok share => (resolveActiveShare.limit share).isOk
  | .error _ => false

/-- A look-up of the shared file, or a URL for it. -/
def Stmt.forURL {α : Type} : Stmt α → Bool
  | .query (.fileByID _) => true
  | .bucket (.presignedGetURL _ _) => true
  | _ => false

/-- Between its tests and its URL, a request for the share relies on the share not having expired. -/
def expiryWindow (deps : Deps) (sh : Share) : Window (services deps) where
  inside q _ e :=
    match q with
    | .shareDownloadURL token _ => e.forURL && token = sh.token
    | _ => false
  holds s := sh.unexpired s.now

/-- What is left of `shareDownloadURL` after its SELECT counts the download, unless it answers
earlier.  The last look at the clock comes after the counting. -/
def beforeCount : Prog Stmt Reply → Bool
  | .call .now next =>
    match next 0 with
    | .ret (.downloadURL _ _) => false
    | _ => true
  | .call (.query (.fileByID _)) _ => true
  | .call (.bucket (.presignedGetURL _ _)) _ => true
  | .call (.write (.incrementDownloads _)) _ => true
  | _ => false

/-- Between its SELECT and its counting, a request for the share relies on the limit test. -/
def limitWatch (deps : Deps) (sh : Share) : Watch (services deps) :=
  .ofFact (services deps) fun th s =>
    match th.origin with
    | .shareDownloadURL token _ =>
      !(beforeCount th.prog && token = sh.token) || s.db.underLimit sh.token
    | _ => true

/-- While another request for the share is between its tests and its URL, the share does not expire;
while one is between its SELECT and its counting, the limit is not used up. -/
def undisturbed (deps : Deps) (sh : Share) : Machine.Schedule Store Request Reply Oracle EnvMove Stmt :=
  fun c m => (expiryWindow deps sh).undisturbed c m && (limitWatch deps sh).undisturbed c m

/-! ## What is answered -/

/-- When a download URL was made. -/
def PresignedURL.issuedAt (url : PresignedURL) : Time := url.expiresAt - downloadExpiry

/-- A request for a token that is answered with a URL. -/
def givesURL (token : GoString) : Request → Reply → Bool
  | .shareDownloadURL t _, .downloadURL _ _ => t = token
  | _, _ => false

/-- The requests for a token that have been answered with a URL. -/
def downloads (token : GoString) (c : Services) : ℕ := c.threads.countP (Thread.earned (givesURL token))

/-- The body of a request passes the password check of the share. -/
def Share.passwordOK (deps : Deps) (sh : Share) (body : Option GoString) : Prop :=
  ∀ hash ∈ sh.passwordHash, ∃ password ∈ body, deps.verifyPassword hash password = true

/-- A URL that a request for the share is answered with was made before the share expired, and the
request had the password. -/
def URLAllowed (deps : Deps) (sh : Share) : Request → Reply → Prop
  | .shareDownloadURL token body, .downloadURL url _ =>
    token = sh.token → sh.unexpired url.issuedAt = true ∧ sh.passwordOK deps body
  | _, _ => True

/-! ## The share's row -/

/-- The share with another count. -/
def Share.withCount (sh : Share) (n : ℤ) : Share := { sh with downloadCount := n }

/-- Every row with the token or the id of the share is the share, but for its count; token and id are
taken for good. -/
structure OnlyRow (sh : Share) (db : DB) : Prop where
  row : ∀ x ∈ db.shares, x.token = sh.token ∨ x.id = sh.id → x = sh.withCount x.downloadCount
  used : db.shares.Used sh.id
  token : db.tokenUsed sh.token = true

/-- Requests for the share count at its row. -/
def CountsAt (sh : Share) {α : Type} : Request → Stmt α → Prop
  | .shareDownloadURL token _, .write (.incrementDownloads id) => token = sh.token → id = sh.id
  | _, _ => True

/-- The outline of a share. -/
def sharing (deps : Deps) (sh : Share) : Outline (services deps) where
  inv s := OnlyRow sh s.db
  rely _ _ := True
  pre q _ e _ := CountsAt sh q e
  post := URLAllowed deps sh
  cond st := succeeds st = true ∧ (expiryWindow deps sh).Held st

section Rows

variable {sh : Share} {db : DB}

/-- A token that was used stays used. -/
theorem Write.tokenUsed {α : Type} {w : Write α} {o : Oracle} {issued : List UUID}
    {a : Except DbError α} {db' : DB} {token : GoString} (h : w.run o issued db = some (a, db'))
    (ht : db.tokenUsed token = true) : db'.tokenUsed token = true := by
  cases w with
  | deleteFile userID root =>
    obtain ⟨-, rfl⟩ | ⟨-, rfl⟩ := Write.deleteFile_cases h
    · exact ht
    · exact ((DB.shrinks_deleteFiles _ _ _).tokens token).trans ht
  | deleteFolder userID folderID =>
    obtain ⟨-, rfl⟩ | ⟨versions, -, hd⟩ := Write.deleteFolder_cases h
    · exact ht
    · exact ((DB.shrinks_deleteFolderTree hd).tokens token).trans ht
  | incrementDownloads id =>
    obtain ⟨-, rfl⟩ | ⟨-, rfl⟩ := Write.incrementDownloads_cases h
    · exact ht
    · rw [DB.tokenUsed_iff] at ht ⊢
      refine ht.imp_left fun ⟨x, hx, hxt⟩ => ⟨_, DB.mem_incrementDownloads.2 ⟨x, hx, rfl⟩, ?_⟩
      split <;> exact hxt
  | createShare fileID userID passwordHash expiresAt maxDownloads =>
    obtain ⟨-, rfl⟩ | ⟨share, -, hu, -, -, rfl⟩ := Write.createShare_cases h
    · exact ht
    · rw [DB.tokenUsed_iff] at ht ⊢
      exact ht.imp_left fun ⟨x, hx, hxt⟩ => ⟨x, (Table.mem_insert hu).2 (Or.inr hx), hxt⟩
  | deleteShare id userID =>
    obtain ⟨-, rfl⟩ | ⟨-, rfl⟩ := Write.deleteShare_cases h
    · exact ht
    · exact DB.tokenUsed_deleteShares.trans ht
  | _ =>
    obtain ⟨files, folders, rfl⟩ := Write.leaves_shares rfl h
    exact ht

/-- No write changes what a share grants. -/
theorem OnlyRow.write {α : Type} {w : Write α} {o : Oracle} {s : Store} {a : Except DbError α}
    {db' : DB} (h : OnlyRow sh s.db) (hw : w.run o s.issued s.db = some (a, db')) :
    OnlyRow sh db' := by
  refine ⟨fun x hx hid => ?_, h.used.mono (Write.run_grows hw).shares, Write.tokenUsed hw h.token⟩
  obtain ⟨y, hy, rfl | rfl⟩ | ⟨hnew, htoken, -⟩ := Write.share_cases hw hx
  · exact h.row x hy hid
  · have hrow := h.row y hy hid
    show y.downloaded = sh.withCount (y.downloadCount + 1)
    rw [hrow]
    rfl
  · obtain hid | hid := hid
    · rw [hid, h.token] at htoken
      cases htoken
    · exact absurd h.used (hid ▸ hnew)

theorem OnlyRow.exec {α : Type} {e : Stmt α} {o : Oracle} {s s' : Store} {a : α}
    (h : OnlyRow sh s.db) (hx : exec o e s = some (a, s')) : OnlyRow sh s'.db := by
  cases e with
  | write w =>
    obtain ⟨db', hw, rfl⟩ := exec_write hx
    exact h.write hw
  | _ => rwa [exec_db rfl hx]

/-- The row that a token resolves to is the share's. -/
theorem OnlyRow.eq_of_query (h : OnlyRow sh db) {o : Oracle} {x : Share}
    (hx : (Query.share sh.token).run o db = .ok x) : x = sh.withCount x.downloadCount := by
  obtain ⟨hmem, htoken⟩ := Query.share_ok hx
  exact h.row x hmem (Or.inl htoken)

end Rows

/-- What follows the password check may assume that the request passed it. -/
theorem Early.checkPassword {P : Prog Stmt Reply → Prop}
    (he : ∀ status message, P (.ret (.error status message))) {verify : GoString → GoString → Bool}
    {body hash : Option GoString} {ku : Unit → Prog Stmt Reply}
    (h : (∀ x ∈ hash, ∃ password ∈ body, verify x password = true) → P (ku ())) :
    P (checkPassword verify body hash ku) := by
  cases hash with
  | none => exact h fun _ hx => absurd hx (by simp)
  | some hash =>
    refine Early.decodeBody he fun password hbody => Early.failIf he fun hok => h fun x hx => ?_
    obtain rfl : x = hash := by simpa using hx.symm
    exact ⟨password, by simpa using hbody, by simpa using hok⟩

/-! ## Reading the handler -/

section Handler

variable {deps : Deps} {sh : Share} {body : Option GoString} {s : Store}

/-- Reading a program against `sharing`. -/
abbrev Sharing (deps : Deps) (sh : Share) (body : Option GoString) (p : Prog Stmt Reply) (s : Store) :
    Prop :=
  (sharing deps sh).Safe (.shareDownloadURL sh.token body) p s

theorem sharing_answer (status : ℕ) (message : String) :
    (sharing deps sh).post (.shareDownloadURL sh.token body) (.error status message) := trivial

theorem sharing_resolveActiveShare {k : Except DbError Share → Prog Stmt Reply}
    (h : ∀ a t, (∀ share, a = .ok share → share = sh.withCount share.downloadCount) →
      Sharing deps sh body (k a) t) : Sharing deps sh body (resolveActiveShare sh.token k) s := by
  refine safe_query (fun _ _ _ => trivial) fun o t _ ht _ => ?_
  cases ha : (Query.share sh.token).run o t.db with
  | error e => exact h _ t fun _ hshare => by cases hshare
  | ok x =>
    have hrow := ht.eq_of_query ha
    have hlimit : ∀ share, resolveActiveShare.limit x = .ok share →
        share = sh.withCount share.downloadCount := fun share hshare =>
      resolveActiveShare_limit_ok hshare ▸ hrow
    cases hexp : x.expiresAt with
    | none => simpa [hexp] using h _ t hlimit
    | some expiresAt =>
      have key : Sharing deps sh body (timeNow fun now =>
          k (if now > expiresAt then .error .recordNotFound else resolveActiveShare.limit x)) t := by
        refine safe_call (fun _ _ _ => trivial) fun now u _ _ _ _ _ _ _ => h _ _ fun share hshare => ?_
        split at hshare
        · cases hshare
        · exact hlimit share hshare
      simpa [hexp] using key

theorem sharing_shareDownloadURL :
    Sharing deps sh body (shareDownloadURL deps.verifyPassword sh.token body .ret) s := by
  refine sharing_resolveActiveShare fun a _ ha => safe_found sharing_answer fun share hshare => ?_
  have hrow := ha share hshare
  have hhash : share.passwordHash = sh.passwordHash := by rw [hrow]; rfl
  have hid : share.id = sh.id := by rw [hrow]; rfl
  refine Early.checkPassword (P := fun p => Sharing deps sh body p _) sharing_answer fun hpassword => ?_
  rw [hhash] at hpassword
  refine safe_query (fun _ _ _ => trivial) fun o t _ _ _ => ?_
  refine safe_foundOr sharing_answer fun file _ => safe_failIf sharing_answer fun _ => ?_
  refine safe_call (fun _ _ _ => trivial) fun a u o' u' _ _ hc hx _ => ?_
  cases a with
  | none => trivial
  | some url =>
    -- The URL was made at the time of the call, when the share had not expired.
    have hissued : url.issuedAt = u.now := by
      simp only [exec, BucketStmt.run, Option.some.injEq, Prod.mk.injEq] at hx
      obtain ⟨hurl, -⟩ := hx
      split at hurl
      · cases hurl
      · obtain rfl := Option.some.inj hurl
        exact add_sub_cancel_right _ _
    have hexp : sh.unexpired url.issuedAt = true := by
      rw [hissued]
      exact hc.2 (decide_eq_true rfl)
    refine safe_write (fun _ _ _ _ => hid) fun _ _ _ _ _ _ _ _ _ => ?_
    exact safe_call (fun _ _ _ => trivial) fun _ _ _ _ _ _ _ _ _ _ => ⟨hexp, hpassword⟩

/-- Requests for the share count at its row and answer as it allows. -/
theorem sharing_handler (q : Request) :
    (sharing deps sh).Safe q ((services deps).handler q) s := by
  cases q with
  | shareDownloadURL token body =>
    by_cases ht : token = sh.token
    · subst ht
      exact sharing_shareDownloadURL
    · refine Outline.safe_of_trivial (fun e _ => ?_) (fun r => ?_) _ _
      · cases e with
        | write w =>
          cases w with
          | incrementDownloads id => exact fun h => absurd h ht
          | _ => trivial
        | _ => trivial
      · cases r with
        | downloadURL url expiresAt => exact fun h => absurd h ht
        | _ => trivial
  | _ => exact Outline.safe_of_trivial (fun _ _ => trivial) (fun _ => trivial) _ _

theorem sharing_valid (deps : Deps) (sh : Share) : (sharing deps sh).Valid where
  rely_refl _ := trivial
  rely_trans _ _ := trivial
  start _ h hq := by
    have hdb := (launch_cases hq).1
    exact ⟨show OnlyRow sh _ from hdb ▸ h, trivial⟩
  safe _ _ _ _ := sharing_handler _
  call h _ _ hx := ⟨h.exec hx, trivial⟩
  env _ h hv := by
    have hdb := (env_cases hv).1
    exact ⟨show OnlyRow sh _ from hdb ▸ h, trivial⟩

end Handler

/-! ## The window -/

section Window

variable {deps : Deps} {sh : Share} {body : Option GoString} {s : Store}

/-- Reading a program against `expiryWindow`, with the share's row as it is. -/
abbrev EntersURL (deps : Deps) (sh : Share) (body : Option GoString) (p : Prog Stmt Reply)
    (s : Store) : Prop :=
  (expiryWindow deps sh).Enters (fun s => OnlyRow sh s.db) (.shareDownloadURL sh.token body) p s

/-- A share that passes the tests has not expired. -/
theorem enters_resolveActiveShare {k : Except DbError Share → Prog Stmt Reply}
    (herror : ∀ e t, EntersURL deps sh body (k (.error e)) t)
    (h : ∀ share t, sh.unexpired t.now = true → EntersURL deps sh body (k (.ok share)) t) :
    EntersURL deps sh body (resolveActiveShare sh.token k) s := by
  refine Window.enters_call rfl fun t o a t' ht hx => ?_
  rw [services_exec] at hx
  obtain ⟨rfl, rfl⟩ := exec_query hx
  cases ha : (Query.share sh.token).run o t'.db with
  | error e => exact herror e t'
  | ok x =>
    have hexp : x.expiresAt = sh.expiresAt := by rw [ht.eq_of_query ha]; rfl
    have hlimit : ∀ u : Store, sh.unexpired u.now = true →
        EntersURL deps sh body (k (resolveActiveShare.limit x)) u := by
      intro u hu
      cases resolveActiveShare.limit x with
      | error e => exact herror e u
      | ok share => exact h share u hu
    cases hsh : sh.expiresAt with
    | none =>
      rw [hsh] at hexp
      simpa [hexp] using hlimit t' (by simp [Share.unexpired, hsh])
    | some expiresAt =>
      rw [hsh] at hexp
      have key : EntersURL deps sh body (timeNow fun now =>
          k (if now > expiresAt then .error .recordNotFound else resolveActiveShare.limit x)) t' := by
        refine Window.enters_call rfl fun u o now u' _ hx => ?_
        obtain ⟨rfl, rfl⟩ : now = u.now ∧ u' = u := by
          simp only [services_exec, exec, Option.some.injEq, Prod.mk.injEq] at hx
          exact ⟨hx.1.symm, hx.2.symm⟩
        split
        · exact herror _ _
        · next hnow => exact hlimit _ (by simpa [Share.unexpired, hsh] using hnow)
      simpa [hexp] using key

theorem enters_shareDownloadURL {verify : GoString → GoString → Bool} :
    EntersURL deps sh body (shareDownloadURL verify sh.token body .ret) s := by
  have answer : ∀ (t : Store) (status : ℕ) (message : String),
      EntersURL deps sh body (.ret (.error status message)) t := fun _ _ _ => trivial
  refine enters_resolveActiveShare (fun e t => by cases e <;> trivial) fun share t ht => ?_
  refine Early.checkPassword (P := fun p => EntersURL deps sh body p t) (answer t) fun _ => ?_
  refine ⟨fun _ => ht, fun u o a u' _ hu hx => ?_⟩
  have hnow : sh.unexpired u.now = true := hu (decide_eq_true rfl)
  rw [services_exec] at hx
  obtain ⟨rfl, rfl⟩ := exec_query hx
  refine Early.foundOr (P := fun p => EntersURL deps sh body p u') (answer u') fun file _ => ?_
  refine Early.failIf (P := fun p => EntersURL deps sh body p u') (answer u') fun _ => ?_
  refine ⟨fun _ => hnow, fun _ _ url _ _ _ _ => ?_⟩
  cases url with
  | none => trivial
  | some url =>
    exact Window.enters_call rfl fun _ _ _ _ _ _ => Window.enters_call rfl fun _ _ _ _ _ _ => trivial

theorem enters_handler (q : Request) (s : Store) :
    (expiryWindow deps sh).Enters (fun s => OnlyRow sh s.db) q ((services deps).handler q) s := by
  cases q with
  | shareDownloadURL token body =>
    by_cases ht : token = sh.token
    · subst ht
      exact enters_shareDownloadURL
    · refine Window.enters_of_outside (fun e => ?_) _
      simp [expiryWindow, ht]
  | _ => exact Window.enters_of_outside (fun _ => rfl) _

end Window

/-! ## The limit -/

section Limit

variable {deps : Deps} {sh : Share} {body : Option GoString} {s : Store}

/-- Requests for the share count when the limit allows for it. -/
def CountsUnder (sh : Share) {α : Type} : Request → Stmt α → Store → Prop
  | .shareDownloadURL token _, .write (.incrementDownloads _), s =>
    token = sh.token → s.db.underLimit sh.token = true
  | _, _, _ => True

/-- The outline of a limit. -/
def limiting (deps : Deps) (sh : Share) : Outline (services deps) where
  inv _ := True
  rely _ _ := True
  pre q _ e s := CountsUnder sh q e s
  post _ _ := True
  cond _ := True

/-- Reading a program against `limiting`. -/
abbrev Limiting (deps : Deps) (sh : Share) (body : Option GoString) (p : Prog Stmt Reply) (s : Store) :
    Prop :=
  (limiting deps sh).SafeOver (sharing deps sh) (limitWatch deps sh) (.shareDownloadURL sh.token body) p s

/-- What an undisturbed request that is still to count knows of the limit at its next call. -/
theorem underLimit_of_interference {p : Prog Stmt Reply} {t : Store} (hp : beforeCount p = true)
    (ht : (limiting deps sh).Interference (sharing deps sh) (limitWatch deps sh)
      ⟨.shareDownloadURL sh.token body, p⟩ s t) (hs : s.db.underLimit sh.token = true) :
    t.db.underLimit sh.token = true := by
  simpa [limitWatch, Watch.ofFact, hp, hs] using ht.kept

/-- The limit test passes on the row that is there. -/
theorem underLimit_of_limit {db : DB} {o : Oracle} {x share : Share}
    (hx : (Query.share sh.token).run o db = .ok x) (hlimit : resolveActiveShare.limit x = .ok share) :
    db.underLimit sh.token = true := by
  rw [DB.underLimit, Query.eval_of_ok hx]
  simp [hlimit, Except.isOk, Except.toBool]

/-- The program has not answered with a URL. -/
def NoURLYet (p : Prog Stmt Reply) : Prop := ∀ url expiresAt, p ≠ .ret (.downloadURL url expiresAt)

theorem limiting_resolveActiveShare {k : Except DbError Share → Prog Stmt Reply}
    (hk : ∀ a, NoURLYet (k a))
    (herror : ∀ e t, Limiting deps sh body (k (.error e)) t)
    (h : ∀ share t, t.db.underLimit sh.token = true → Limiting deps sh body (k (.ok share)) t) :
    Limiting deps sh body (resolveActiveShare sh.token k) s := by
  refine watched_query (fun _ _ _ => trivial) fun o t _ _ => ?_
  cases ha : (Query.share sh.token).run o t.db with
  | error e => exact herror e t
  | ok x =>
    have hlimit : ∀ u : Store, ((resolveActiveShare.limit x).isOk = true → u.db.underLimit sh.token = true) →
        Limiting deps sh body (k (resolveActiveShare.limit x)) u := by
      intro u hu
      cases hl : resolveActiveShare.limit x with
      | error e => exact herror e u
      | ok share => exact h share u (hu (by rw [hl]; rfl))
    have hunder : (resolveActiveShare.limit x).isOk = true → t.db.underLimit sh.token = true := by
      cases hl : resolveActiveShare.limit x with
      | error e => exact fun h => by cases h
      | ok share => exact fun _ => underLimit_of_limit ha hl
    cases hexp : x.expiresAt with
    | none => simpa [hexp] using hlimit t hunder
    | some expiresAt =>
      have key : Limiting deps sh body (timeNow fun now =>
          k (if now > expiresAt then .error .recordNotFound else resolveActiveShare.limit x)) t := by
        refine watched_call (fun _ _ _ => trivial) fun now u _ u' hu _ hx _ _ => ?_
        obtain ⟨rfl, rfl⟩ := Prod.mk.inj (Option.some.inj hx)
        split
        · exact herror _ _
        · refine hlimit _ fun hok => underLimit_of_interference ?_ hu (hunder hok)
          unfold beforeCount
          dsimp only
          split
          · next heq => exact absurd heq (hk _ _ _)
          · rfl
      simpa [hexp] using key

theorem limiting_shareDownloadURL {verify : GoString → GoString → Bool} :
    Limiting deps sh body (shareDownloadURL verify sh.token body .ret) s := by
  have answer : ∀ (t : Store) (status : ℕ) (message : String),
      Limiting deps sh body (.ret (.error status message)) t := fun _ _ _ => trivial
  have herror : ∀ status message, NoURLYet (.ret (.error status message)) :=
    fun _ _ _ _ h => Reply.noConfusion (Prog.ret.inj h)
  refine limiting_resolveActiveShare (fun a => ?_) (fun e t => by cases e <;> trivial) fun share t ht => ?_
  · refine Early.found (P := NoURLYet) herror fun share _ => ?_
    exact Early.checkPassword (P := NoURLYet) herror fun _ _ _ h => by cases h
  refine Early.checkPassword (P := fun p => Limiting deps sh body p t) (answer t) fun _ => ?_
  refine watched_query (fun _ _ _ => trivial) fun o u hu _ => ?_
  have hunder := underLimit_of_interference rfl hu ht
  refine Early.foundOr (P := fun p => Limiting deps sh body p u) (answer u) fun file _ => ?_
  refine Early.failIf (P := fun p => Limiting deps sh body p u) (answer u) fun _ => ?_
  refine watched_call (fun _ _ _ => trivial) fun url v _ v' hv _ hx _ _ => ?_
  obtain ⟨-, rfl⟩ := Prod.mk.inj (Option.some.inj hx)
  have hunder := underLimit_of_interference rfl hv hunder
  cases url with
  | none => trivial
  | some url =>
    refine watched_write (fun w hw _ _ => underLimit_of_interference rfl hw hunder) fun _ _ _ _ _ => ?_
    exact watched_call (fun _ _ _ => trivial) fun _ _ _ _ _ _ _ _ _ => trivial

theorem limiting_handler (q : Request) (s : Store) :
    (limiting deps sh).SafeOver (sharing deps sh) (limitWatch deps sh) q ((services deps).handler q) s := by
  cases q with
  | shareDownloadURL token body =>
    by_cases ht : token = sh.token
    · subst ht
      exact limiting_shareDownloadURL
    · refine Outline.safeOver_of_pre (fun e _ _ => ?_) (fun _ => trivial) _ _
      cases e with
      | write w =>
        cases w with
        | incrementDownloads id => exact fun h => absurd h ht
        | _ => trivial
      | _ => trivial
  | _ => exact Outline.safeOver_of_pre (fun _ _ _ => trivial) (fun _ => trivial) _ _

theorem limiting_valid (deps : Deps) (sh : Share) :
    (limiting deps sh).ValidOver (sharing deps sh) (limitWatch deps sh) where
  rely_refl _ := trivial
  rely_trans _ _ := trivial
  start _ _ _ _ _ _ := ⟨trivial, trivial⟩
  safe _ _ _ _ _ _ := limiting_handler _ _
  call _ _ _ _ _ _ _ _ := ⟨trivial, trivial⟩
  env _ _ _ _ _ _ := ⟨trivial, trivial⟩

end Limit

/-! ## Counting -/

/-- A request for the token counts a download. -/
def countsDownload (token : GoString) : ServiceStep → Bool
  | .call _ (.shareDownloadURL t _) _ (.write (.incrementDownloads _)) _ => t = token
  | _ => false

section Payments

variable {deps : Deps} {token : GoString} {body : Option GoString} {paid : Bool}

/-- Paying for URLs by counting downloads. -/
abbrev PaysURL (deps : Deps) (token : GoString) (body : Option GoString) (paid : Bool)
    (p : Prog Stmt Reply) : Prop :=
  Pays (services deps) (givesURL token) (countsDownload token) (.shareDownloadURL token body) paid p

theorem pays_error (status : ℕ) (message : String) :
    PaysURL deps token body paid (.ret (.error status message)) := pays_ret rfl

theorem pays_resolveActiveShare {k : Except DbError Share → Prog Stmt Reply}
    (h : ∀ a, PaysURL deps token body paid (k a)) :
    PaysURL deps token body paid (resolveActiveShare token k) := by
  refine pays_call fun s o a s' _ => ?_
  cases a with
  | error e => exact h _
  | ok share =>
    cases hexp : share.expiresAt with
    | none => simpa [hexp] using h _
    | some expiresAt =>
      have key : PaysURL deps token body paid (timeNow fun now => k
          (if now > expiresAt then .error .recordNotFound else resolveActiveShare.limit share)) :=
        pays_call fun _ _ _ _ _ => h _
      simpa [hexp] using key

/-- Every URL is paid for: the download is counted before the answer. -/
theorem pays_shareDownloadURL {verify : GoString → GoString → Bool} :
    PaysURL deps token body false (shareDownloadURL verify token body .ret) := by
  refine pays_resolveActiveShare fun a => ?_
  refine Early.found (P := PaysURL deps token body false) pays_error fun share _ => ?_
  refine Early.checkPassword (P := PaysURL deps token body false) pays_error fun _ => ?_
  refine pays_call fun _ _ a _ _ => ?_
  refine Early.foundOr (P := PaysURL deps token body false) pays_error fun file _ => ?_
  refine Early.failIf (P := PaysURL deps token body false) pays_error fun _ => ?_
  refine pays_call fun _ _ url _ _ => ?_
  cases url with
  | none => exact pays_ret rfl
  | some url =>
    refine pays_step fun s o a s' _ => Or.inl ?_
    simp [countsDownload]

variable (deps token) in
theorem pays_handler (q : Request) : Pays (services deps) (givesURL token) (countsDownload token) q
    false ((services deps).handler q) := by
  cases q with
  | shareDownloadURL t body =>
    by_cases ht : t = token
    · subst ht
      exact pays_shareDownloadURL
    · refine pays_of_free (fun r => ?_) _
      cases r <;> simp [givesURL, ht]
  | _ => exact pays_of_free (fun _ => rfl) _

end Payments

section Count

variable {sh : Share} {m : ℤ} {n : ℕ} {db : DB}

/-- The share allows `n` downloads, and its row has counted that many. -/
structure Counted (sh : Share) (m : ℤ) (n : ℕ) (db : DB) : Prop where
  le_max : (n : ℤ) ≤ m
  le_count : ∀ x ∈ db.shares, x.id = sh.id → (n : ℤ) ≤ x.downloadCount

/-- No write counts down. -/
theorem Counted.write {α : Type} {w : Write α} {o : Oracle} {issued : List UUID}
    {a : Except DbError α} {db' : DB} (h : Counted sh m n db) (hsh : db.shares.Used sh.id)
    (hw : w.run o issued db = some (a, db')) : Counted sh m n db' := by
  refine ⟨h.le_max, fun x hx hid => ?_⟩
  obtain ⟨y, hy, rfl | rfl⟩ | ⟨hnew, -⟩ := Write.share_cases hw hx
  · exact h.le_count x hy hid
  · have hle := h.le_count y hy hid
    simp only [Share.downloaded]
    omega
  · exact absurd hsh (hid ▸ hnew)

/-- The limit test leaves room for one more. -/
theorem Counted.lt_max (h : Counted sh m n db) (honly : OnlyRow sh db)
    (hmax : sh.maxDownloads = some m) (hc : db.underLimit sh.token = true) : (n : ℤ) < m := by
  unfold DB.underLimit at hc
  split at hc
  · next x hx =>
    have hrow : x = sh.withCount x.downloadCount := by
      obtain ⟨hmem, htoken⟩ := mem_of_firstOrNotFound hx
      exact honly.row x hmem (Or.inl (by simpa using htoken))
    have hxmax : x.maxDownloads = some m := by
      rw [hrow]
      exact hmax
    have hle := h.le_count x (mem_of_firstOrNotFound hx).1 (by rw [hrow]; rfl)
    by_cases hge : x.downloadCount ≥ m
    · simp [resolveActiveShare.limit, hxmax, hge, Except.isOk, Except.toBool] at hc
    · omega
  · cases hc

/-- One more download, counted at the row. -/
theorem Counted.increment (h : Counted sh m n db) (hlt : (n : ℤ) < m) :
    Counted sh m (n + 1) (db.incrementDownloads sh.id) := by
  refine ⟨by omega, fun x hx hid => ?_⟩
  obtain ⟨y, hy, rfl⟩ := DB.mem_incrementDownloads.1 hx
  have hyid : y.id = sh.id := by
    split at hid
    · assumption
    · exact hid
  have hle := h.le_count y hy hyid
  rw [if_pos hyid]
  simp only [Share.downloaded]
  omega

/-- **One call** that is made when the limit allows for it keeps the count. -/
theorem Counted.call {s s' : Store} {q : Request} {o : Oracle} {α : Type} {e : Stmt α}
    {a : α} (h : Counted sh m n s.db) (honly : OnlyRow sh s.db) (hmax : sh.maxDownloads = some m)
    (hpre : CountsAt sh q e) (hunder : CountsUnder sh q e s)
    (hsucceeds : succeeds (.call s q o e a) = true) (hx : exec o e s = some (a, s')) :
    Counted sh m (n + if countsDownload sh.token (.call s q o e a) then 1 else 0) s'.db := by
  by_cases hcounts : countsDownload sh.token (.call s q o e a) = true
  · rw [if_pos hcounts]
    cases e with
    | write w =>
      cases w with
      | incrementDownloads id =>
        cases q with
        | shareDownloadURL token body =>
          obtain rfl : token = sh.token := by simpa [countsDownload] using hcounts
          obtain rfl : id = sh.id := hpre rfl
          obtain ⟨db', hw, rfl⟩ := exec_write hx
          have hfails : o.fails = false := by simpa [succeeds] using hsucceeds
          obtain rfl : db' = s.db.incrementDownloads sh.id := by
            simp only [Write.run, Write.commit, hfails, Bool.false_eq_true, if_false,
              Option.some.injEq, Prod.mk.injEq] at hw
            exact hw.2.symm
          exact h.increment (h.lt_max honly hmax (hunder rfl))
        | _ => cases hcounts
      | _ => cases q <;> cases hcounts
    | _ => cases q <;> cases hcounts
  · rw [if_neg hcounts]
    cases e with
    | write w =>
      obtain ⟨db', hw, rfl⟩ := exec_write hx
      exact h.write honly.used hw
    | _ => rwa [exec_db rfl hx]

end Count

/-! ## Every run -/

/-- Along every run, the share's token and id stay with its row. -/
theorem OnlyRow.reaches {deps : Deps} {sch : Machine.Schedule Store Request Reply Oracle EnvMove Stmt}
    {s₀ : Store} {c : Services} {sh : Share} (h₀ : OnlyRow sh s₀.db)
    (h : (services deps).Reaches sch (start s₀) c) : OnlyRow sh c.store.db := by
  refine h.store (I := fun s => OnlyRow sh s.db) h₀ ?_ ?_ ?_
  · intro q s s' hs hq
    rw [services_launch] at hq
    rwa [(launch_cases hq).1]
  · intro o α e a s s' hs hx
    rw [services_exec] at hx
    exact hs.exec hx
  · intro v s s' hs hv
    rw [services_env] at hv
    rwa [(env_cases hv).1]

/-- **The limit of a share is kept**, in every run in which the share does not expire between the
tests of a request and its URL, and in which nobody else uses up its limit between the SELECT of a
request and its counting: no more requests for its token are answered with a URL than its limit, and
every URL was made before the share expired and for a request that had the password. -/
theorem share_limit_kept (deps : Deps) {s₀ : Store} {c : Services} {sh : Share}
    (h : (services deps).Reaches (undisturbed deps sh) (start s₀) c)
    (hsh : sh ∈ s₀.db.shares) (hunique : ∀ x ∈ s₀.db.shares, x.token = sh.token → x = sh)
    (hcount : sh.downloadCount = 0) {m : ℤ} (hmax : sh.maxDownloads = some m) (hm : 0 ≤ m)
    (hsucceeds : ∀ st ∈ c.trace, succeeds st = true) :
    (downloads sh.token c : ℤ) ≤ m ∧
      ∀ th ∈ c.threads, ∀ r, th.prog = .ret r → URLAllowed deps sh th.origin r := by
  have honly : OnlyRow sh s₀.db := by
    refine ⟨?_, Table.used_of_mem hsh, DB.tokenUsed_iff.2 (Or.inl ⟨sh, hsh, rfl⟩)⟩
    rintro x hx (htoken | hid)
    · rw [hunique x hx htoken]
      rfl
    · rw [Table.eq_of_key hx hsh (by simpa using hid)]
      rfl
  have hheld := Window.held_of_reaches (fun _ _ hm => (Bool.and_eq_true_iff.1 hm).1)
    (fun _ hc => honly.reaches hc) enters_handler h
  have hcond : ∀ st ∈ c.trace, (sharing deps sh).cond st := fun st hst =>
    ⟨hsucceeds st hst, hheld st hst⟩
  have hL := sharing_valid deps sh
  obtain ⟨-, -, hmade⟩ := (limiting_valid deps sh).good hL h
    (fun _ _ hm => (Bool.and_eq_true_iff.1 hm).2) honly trivial hcond fun _ _ => trivial
  have hinit : (sharing deps sh).Good (start s₀) := Outline.good_init honly
  constructor
  · have hcounted := hL.carry (J := fun tr s => (∀ st ∈ tr, (limiting deps sh).Made st) →
      Counted sh m (tr.countP (countsDownload sh.token)) s.db)
      h hinit hcond (fun _ => ⟨hm, fun x hx hid => ?_⟩) ?_ ?_ ?_
    · have hpaid := answers_le_payments (pays_handler deps sh.token) h
      have hle := (hcounted hmade).le_max
      unfold downloads
      omega
    · rw [Table.eq_of_key hx hsh (by simpa using hid), hcount]
      rfl
    · intro tr q s s' hJ _ _ hq hmade
      rw [services_launch] at hq
      rw [(launch_cases hq).1]
      exact hJ fun st hst => hmade st (List.mem_cons_of_mem _ hst)
    · intro tr q o α e a s s' hJ hs hpre hc hx hmade
      rw [services_exec] at hx
      rw [List.countP_cons]
      exact (hJ fun st hst => hmade st (List.mem_cons_of_mem _ hst)).call hs hmax hpre
        (hmade _ List.mem_cons_self) hc.1 hx
    · intro tr v s s' hJ _ _ hv hmade
      rw [services_env] at hv
      rw [(env_cases hv).1]
      exact hJ fun st hst => hmade st (List.mem_cons_of_mem _ hst)
  · intro th hth r hr
    have hsafe := (hL.good h hinit hcond).2 th hth
    rw [hr] at hsafe
    exact hsafe

/-! ### A share that allows one download -/

/-- A file of Alice that is ready. -/
def readyFile : File where
  id := 100
  name := lit "a.txt"
  userID := 1
  folderID := none
  storageKey := storageKey 1 100 (lit "a.txt")
  sizeBytes := 3
  mimeType := lit "text/plain"
  status := .ready
  version := 1
  isCurrent := true

/-- A share of the file with a password, for one download within a minute. -/
def onceShare : Share := ⟨200, 100, 1, lit "token", some (lit "secret"), some minute, some 1, 0⟩

/-- Alice's account with the file and the share. -/
def sharedStore : Store :=
  { Store.empty with
    db :=
      { users := aliceOnly
        folders := .empty
        files := Table.empty.insert readyFile (by simp [Table.Used])
        shares := Table.empty.insert onceShare (by simp [Table.Used]) } }

/-- Somebody with the password asks for the file. -/
def fetchShared : Request := .shareDownloadURL (lit "token") (some (lit "secret"))

/-- One request after the other; the second is refused. -/
theorem share_limit_kept_once :
    ∃ c : Services, (services plainDeps).Reaches (undisturbed plainDeps onceShare)
      (start sharedStore) c ∧ downloads (lit "token") c = 1 ∧
      (downloads onceShare.token c : ℤ) ≤ 1 ∧
      ∀ th ∈ c.threads, ∀ r, th.prog = .ret r → URLAllowed plainDeps onceShare th.origin r := by
  obtain ⟨c, hc, hP⟩ := Machine.exists_reaches (services plainDeps)
    (undisturbed plainDeps onceShare) (start sharedStore)
    (fun c => downloads (lit "token") c = 1 && c.trace.all succeeds)
    [.start fetchShared, .step 0 {}, .step 0 {}, .step 0 {}, .step 0 {}, .step 0 {}, .step 0 {},
      .start fetchShared, .step 1 {}, .step 1 {}]
    (by decide)
  simp only [Bool.and_eq_true, List.all_eq_true, decide_eq_true_eq] at hP
  have honly : ∀ x ∈ sharedStore.db.shares, x.token = onceShare.token → x = onceShare :=
    fun x hx _ => List.mem_singleton.1 hx
  exact ⟨c, hc, hP.1, share_limit_kept plainDeps hc (List.mem_singleton.2 rfl) honly rfl rfl
    (by decide) hP.2⟩

/-- A request for the share was answered with a URL that was made after the expiry. -/
def answersLate (th : Thread Request Stmt Reply) : Bool :=
  match th.origin, th.prog with
  | .shareDownloadURL token body, .ret (.downloadURL url _) =>
    token = lit "token" && body = some (lit "secret") && !onceShare.unexpired url.issuedAt
  | _, _ => false

/-- Two requests read the row before either counts, and make their URLs after two minutes. -/
theorem share_limit_exceeded :
    ∃ c : Services, (services plainDeps).Reaches Machine.anySchedule (start sharedStore) c ∧
      (∀ st ∈ c.trace, succeeds st = true) ∧ onceShare ∈ sharedStore.db.shares ∧
      onceShare.downloadCount = 0 ∧ onceShare.maxDownloads = some 1 ∧
      ¬(downloads onceShare.token c : ℤ) ≤ 1 ∧
      ∃ th ∈ c.threads, ∃ url expiresAt, th.prog = .ret (.downloadURL url expiresAt) ∧
        th.origin = fetchShared ∧ onceShare.unexpired url.issuedAt = false := by
  obtain ⟨c, hc, hP⟩ := Machine.exists_reaches (services plainDeps) Machine.anySchedule
    (start sharedStore)
    (fun c => c.trace.all succeeds && (downloads onceShare.token c = 2 &&
      c.threads.any answersLate))
    [.start fetchShared, .step 0 {}, .step 0 {}, .start fetchShared, .step 1 {}, .step 1 {},
      .env (.tick (2 * minute)), .step 0 {}, .step 0 {}, .step 0 {}, .step 0 {}, .step 1 {},
      .step 1 {}, .step 1 {}, .step 1 {}]
    (by decide)
  simp only [Bool.and_eq_true, List.all_eq_true, List.any_eq_true, decide_eq_true_eq] at hP
  obtain ⟨hsucceeds, htwo, th, hth, hlate⟩ := hP
  refine ⟨c, hc, hsucceeds, List.mem_singleton.2 rfl, rfl, rfl, ?_, ?_⟩
  · rw [htwo]
    decide
  · obtain ⟨origin, prog⟩ := th
    unfold answersLate at hlate
    dsimp only at hlate
    split at hlate
    · next token body url expiresAt =>
      simp only [Bool.and_eq_true, decide_eq_true_eq, Bool.not_eq_true'] at hlate
      obtain ⟨⟨rfl, rfl⟩, hexp⟩ := hlate
      exact ⟨_, hth, url, expiresAt, rfl, rfl, hexp⟩
    · cases hlate

end Optiflow
