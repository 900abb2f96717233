import Optiflow.Proof.DeadLinks
import Optiflow.Proof.Links

/-!
# What a share link opens

Whoever has the token of a share gets what its owner has shared, and nothing else: an answer for a token
goes back to a link that a request of the file's owner had made, whose tests the request passed on what it
read (`link_opens_shared`).
-/

namespace Optiflow

open Interleave Code UploadSvc ApiSvc

/-! ## The property -/

/-- The share is made by the step, of a request of its user for its file. -/
def Share.madeBy (sh : Share) : ServiceStep → Prop
  | .call _ (.createShare userID id _) _ (.write (.createShare _ _ _ _ _)) (.ok x) =>
    x = sh ∧ sh.userID = userID ∧ UUID.parse id = some sh.fileID
  | _ => False

/-- With these steps, the newest first, the request selected the link after it was made, with a count under
its limit, read the clock before the link expired, and selected the row of the file, which is one of the
link's user. -/
structure Opened (tr hist : List ServiceStep) (q : Request) (sh : Share) (f : File) : Prop where
  token : q.asksFor sh.token
  found : ∃ s o n, .call s q o (.query (.share sh.token)) (.ok (sh.withCount n)) ∈ hist ∧
    sh.withCount n ∈ s.db.shares ∧ (∀ m ∈ sh.maxDownloads, n < m) ∧
    ∃ older, .call s q o (.query (.share sh.token)) (.ok (sh.withCount n)) :: older <:+ tr ∧
      ∃ made ∈ older, sh.madeBy made
  clock : ∀ expiresAt ∈ sh.expiresAt, ∃ s o, .call s q o .now s.now ∈ hist ∧ s.now ≤ expiresAt
  file : ∃ s o, .call s q o (.query (.fileByID sh.fileID)) (.ok f) ∈ hist ∧ f ∈ s.db.files
  shared : f.id = sh.fileID ∧ f.userID = sh.userID

/-- What the services answer for a link, of a share and a file that are `B`. -/
def LinkAnswer (deps : Deps) (B : Share → File → Prop) : Request → Reply → Prop
  | .shareDownloadURL _ body, .downloadURL url _ => ∃ sh f, B sh f ∧ sh.passwordOK deps body ∧
      f.status = .ready ∧ url.key = f.storageKey
  | .getPublicShare _, .publicShare p => ∃ sh f, B sh f ∧
      p = ⟨f.name, f.sizeBytes, f.mimeType, sh.passwordHash.isSome, f.thumbnailKey.isSome⟩
  | _, _ => True

/-! ## Reading the handlers -/

/-- What the calls of a request have found when its link passes the tests. -/
structure FoundShare (q : Request) (hist : List ServiceStep) (x : Share) : Prop where
  token : q.asksFor x.token
  row : ∃ s o, .call s q o (.query (.share x.token)) (.ok x) ∈ hist ∧ x ∈ s.db.shares
  limit : ∀ m ∈ x.maxDownloads, x.downloadCount < m
  clock : ∀ expiresAt ∈ x.expiresAt, ∃ s o, .call s q o .now s.now ∈ hist ∧ s.now ≤ expiresAt

/-- And the file of the link. -/
structure FoundFile (q : Request) (hist : List ServiceStep) (x : Share) (f : File) : Prop
    extends FoundShare q hist x where
  file : ∃ s o, .call s q o (.query (.fileByID x.fileID)) (.ok f) ∈ hist ∧ f ∈ s.db.files
  shared : f.id = x.fileID

/-- A share is made for the file that its request names. -/
def MakesNamed (q : Request) (_ : List ServiceStep) {α : Type} : Stmt α → Prop
  | .write (.createShare fileID _ _ _ _) => ∀ userID id req, q = .createShare userID id req →
      UUID.parse id = some fileID
  | _ => True

section Handlers

variable {deps : Deps} {q : Request} {hist : List ServiceStep} {token : GoString} {x : Share} {f : File}

theorem FoundShare.mono {hist' : List ServiceStep} (h : FoundShare q hist x) (hsub : hist ⊆ hist') :
    FoundShare q hist' x where
  token := h.token
  row := h.row.imp fun _ => Exists.imp fun _ hst => ⟨hsub hst.1, hst.2⟩
  limit := h.limit
  clock expiresAt hexp := (h.clock expiresAt hexp).imp fun _ => Exists.imp fun _ hst => ⟨hsub hst.1, hst.2⟩

theorem FoundFile.mono {hist' : List ServiceStep} (h : FoundFile q hist x f) (hsub : hist ⊆ hist') :
    FoundFile q hist' x f where
  toFoundShare := h.toFoundShare.mono hsub
  file := h.file.imp fun _ => Exists.imp fun _ hst => ⟨hsub hst.1, hst.2⟩
  shared := h.shared

theorem resolveActiveShare_limit_lt (h : resolveActiveShare.limit x = .ok x) :
    ∀ m ∈ x.maxDownloads, x.downloadCount < m := by
  intro m hm
  simp only [resolveActiveShare.limit, Option.mem_def.1 hm] at h
  split at h
  · cases h
  · next hlt => exact lt_of_not_ge hlt

/-- Reading a program for what its thread has found when it answers. -/
abbrev Opens (deps : Deps) (q : Request) (p : Prog Stmt Reply) (hist : List ServiceStep) : Prop :=
  (services deps).Recalls MakesNamed (fun q hist => LinkAnswer deps (FoundFile q hist) q) q p hist

theorem opens_error (hist : List ServiceStep) (status : ℕ) (message : String) :
    Opens deps q (.ret (.error status message)) hist := by
  cases q <;> trivial

theorem makesNamed_of_looks {α : Type} {e : Stmt α} (he : e.looks) (hist : List ServiceStep) :
    MakesNamed q hist e := by
  cases e with
  | write w => exact he.elim
  | _ => trivial

theorem opens_over {α : Type} {c : Handler α} (hc : Errs c) {k : α → Prog Stmt Reply}
    (hk : ∀ a hist, Opens deps q (k a) hist) (hist : List ServiceStep) : Opens deps q (c k) hist := by
  refine Machine.recalls_over hc (fun _ he => makesNamed_of_looks he) (fun r hr hist => ?_) hk hist
  cases r with
  | error status message => exact (opens_error hist status message : Opens deps q _ hist)
  | _ => cases hr

theorem opens_query {α : Type} {qy : Query α} {k : Except DbError α → Prog Stmt Reply}
    (h : ∀ o s, Opens deps q (k (qy.run o s.db)) (.call s q o (.query qy) (qy.run o s.db) :: hist)) :
    Opens deps q (query qy k) hist := by
  refine ⟨trivial, fun o a s s' hx => ?_⟩
  rw [services_exec] at hx
  obtain ⟨rfl, -⟩ := exec_query hx
  exact h o s

/-- What a token resolves to was found, and passed the tests. -/
theorem opens_resolveActiveShare (hq : q.asksFor token) {k : Except DbError Share → Prog Stmt Reply}
    (herror : ∀ e hist, Opens deps q (k (.error e)) hist)
    (h : ∀ x hist, FoundShare q hist x → Opens deps q (k (.ok x)) hist) :
    Opens deps q (resolveActiveShare token k) hist := by
  refine opens_query fun o s => ?_
  cases ha : (Query.share token).run o s.db with
  | error e => exact herror e _
  | ok x =>
    obtain ⟨hmem, rfl⟩ := Query.share_ok ha
    have hlimit : ∀ hist, (∃ s o, .call s q o (.query (.share x.token)) (.ok x) ∈ hist ∧ x ∈ s.db.shares) →
        (∀ expiresAt ∈ x.expiresAt, ∃ s o, .call s q o .now s.now ∈ hist ∧ s.now ≤ expiresAt) →
        Opens deps q (k (resolveActiveShare.limit x)) hist := by
      intro hist hrow hclock
      cases hl : resolveActiveShare.limit x with
      | error e => exact herror e _
      | ok y =>
        obtain rfl := resolveActiveShare_limit_ok hl
        exact h y hist ⟨hq, hrow, resolveActiveShare_limit_lt hl, hclock⟩
    cases hexp : x.expiresAt with
    | none => simpa [hexp] using hlimit _ ⟨s, o, List.mem_cons_self, hmem⟩ (by simp [hexp])
    | some expiresAt =>
      have key : Opens deps q (timeNow fun now => k (if now > expiresAt then .error .recordNotFound
          else resolveActiveShare.limit x)) (.call s q o (.query (.share x.token)) (.ok x) :: hist) := by
        refine ⟨trivial, fun o' now s' s'' hx => ?_⟩
        obtain rfl : now = s'.now := by
          simp only [services_exec, exec, Option.some.injEq, Prod.mk.injEq] at hx
          exact hx.1.symm
        show Opens deps q (k (if s'.now > expiresAt then _ else _)) _
        split
        · exact herror _ _
        · next hnow =>
          refine hlimit _ ⟨s, o, List.mem_cons_of_mem _ List.mem_cons_self, hmem⟩ fun e he => ?_
          obtain rfl := Option.some.inj (hexp.symm.trans he)
          exact ⟨s', o', List.mem_cons_self, not_lt.1 hnow⟩
      simpa [hexp] using key

/-- The file of a link that was found. -/
theorem opens_fileByID (hx : FoundShare q hist x) {k : File → Prog Stmt Reply}
    (h : ∀ f hist, FoundFile q hist x f → Opens deps q (k f) hist) :
    Opens deps q (query (.fileByID x.fileID)
      fun a => foundOr 404 "shared file no longer exists" a k) hist := by
  refine opens_query fun o s => ?_
  generalize ha : (Query.fileByID x.fileID).run o s.db = a
  refine Early.foundOr (P := fun p => Opens deps q p _) (opens_error _) fun f hok => ?_
  subst hok
  obtain ⟨hmem, hid⟩ := Query.fileByID_ok ha
  exact h f _ ⟨hx.mono (List.subset_cons_self _ _), ⟨s, o, List.mem_cons_self, hmem⟩, hid⟩

theorem opens_shareDownloadURL (token : GoString) (body : Option GoString) :
    Opens deps (.shareDownloadURL token body) (shareDownloadURL deps.verifyPassword token body .ret)
      hist := by
  have hq : (Request.shareDownloadURL token body).asksFor token := rfl
  refine opens_resolveActiveShare hq (fun e hist => by cases e <;> trivial) fun x hist hx => ?_
  refine Early.checkPassword (P := fun p => Opens deps _ p _) (opens_error _) fun hpassword => ?_
  refine opens_fileByID hx fun f hist hf => ?_
  refine Early.failIf (P := fun p => Opens deps _ p _) (opens_error _) fun hready => ?_
  rw [ne_eq, not_not] at hready
  refine ⟨trivial, fun o a s s' hcall => ?_⟩
  cases a with
  | none => trivial
  | some url =>
    have hkey : url.key = f.storageKey := by
      simp only [services_exec, exec, BucketStmt.run, Option.some.injEq, Prod.mk.injEq] at hcall
      obtain ⟨hurl, -⟩ := hcall
      split at hurl
      · cases hurl
      · obtain rfl := Option.some.inj hurl
        rfl
    refine ⟨trivial, fun _ _ _ _ _ => ⟨trivial, fun _ _ _ _ _ => ?_⟩⟩
    exact ⟨x, f, hf.mono fun _ hst => List.mem_cons_of_mem _ (List.mem_cons_of_mem _
      (List.mem_cons_of_mem _ hst)), hpassword, hready, hkey⟩

theorem opens_getPublicShare (token : GoString) :
    Opens deps (.getPublicShare token) (getPublicShare token .ret) hist := by
  have hq : (Request.getPublicShare token).asksFor token := rfl
  refine opens_resolveActiveShare hq (fun e hist => by cases e <;> trivial) fun x hist hx => ?_
  exact opens_fileByID hx fun f hist hf => ⟨x, f, hf, rfl⟩

theorem opens_createShare (userID : UUID) (id : GoString) (req : ShareCreateRequest) :
    Opens deps (.createShare userID id req) (createShare userID id req .ret) hist := by
  refine Early.parseID (P := fun p => Opens deps _ p hist) (opens_error hist) fun fileID hid => ?_
  refine opens_query fun o s => Early.foundOr (P := fun p => Opens deps _ p _) (opens_error _) ?_
  intro file ha
  obtain ⟨-, rfl, -⟩ := Query.file_ok ha
  refine ⟨trivial, fun o generated s s' _ => ?_⟩
  refine Early.failIf (P := fun p => Opens deps _ p _) (opens_error _) fun _ => ?_
  refine opens_over (errs_shareExpiry _) (fun expiresAt => ?_) _
  refine opens_over (errs_shareLimit _) fun maxDownloads => ?_
  refine opens_over (errs_sharePasswordHash _) fun passwordHash hist => ?_
  refine ⟨fun userID id req hq => ?_, fun o a s s' _ => ?_⟩
  · obtain ⟨-, rfl, -⟩ := Request.createShare.inj hq
    exact hid
  exact Early.foundOr (P := fun p => Opens deps _ p _) (opens_error _) fun _ _ => trivial

theorem makesNamed_of_ne (hq : ∀ userID id req, q ≠ .createShare userID id req) {α : Type} (e : Stmt α)
    (hist : List ServiceStep) : MakesNamed q hist e := by
  cases e with
  | write w =>
    cases w with
    | createShare => exact fun userID id req h => absurd h (hq userID id req)
    | _ => trivial
  | _ => trivial

theorem opens_handler (q : Request) : Opens deps q ((services deps).handler q) hist := by
  cases q with
  | createShare userID id req => exact opens_createShare userID id req
  | shareDownloadURL token body => exact opens_shareDownloadURL token body
  | getPublicShare token => exact opens_getPublicShare token
  | _ =>
    refine Machine.recalls_of_makes (Prog.makes_of_forall (fun e => makesNamed_of_ne ?_ e) _)
      (fun _ r => by cases r <;> trivial) hist
    exact fun _ _ _ h => by cases h

end Handlers

/-! ## Where the rows come from -/

/-- The step makes the share for its request's user. -/
def Requested : ServiceStep → Prop
  | .call _ q _ (.write (.createShare _ owner _ _ _)) _ => ∃ id req, q = .createShare owner id req
  | _ => True

section Runs

variable {deps : Deps} {users : Table User} {c : Services}

/-- The steps of a run were taken in stores that have grown since. -/
theorem steps_known
    (h : (services deps).Reaches Machine.anySchedule (start (Store.fresh users)) c) :
    ∀ st ∈ c.trace, Grows st.before c.store ∧ Requested st := by
  refine (provenance_valid deps).since (K := fun st s => Grows st.before s ∧ Requested st)
    (C := fun _ => True) h (wellFormed_fresh users) (fun _ _ => trivial) (fun _ _ => trivial) ?_ ?_ ?_
  · intro q s s' _ _ _ hq
    rw [services_launch] at hq
    have hgrow : Grows s s' := Grows.of_db_eq (launch_cases hq).1
    exact ⟨⟨hgrow, trivial⟩, fun _ hst => ⟨hst.1.trans hgrow, hst.2⟩⟩
  · intro q o α e a s s' _ _ hpre _ hx
    rw [services_exec] at hx
    have hgrow := exec_grows hx
    refine ⟨⟨hgrow, ?_⟩, fun _ hst => ⟨hst.1.trans hgrow, hst.2⟩⟩
    cases e with
    | write w =>
      cases w with
      | createShare => exact hpre.1
      | _ => trivial
    | _ => trivial
  · intro v s s' _ _ _ hv
    rw [services_env] at hv
    have hgrow : Grows s s' := Grows.of_db_eq (env_cases hv).1
    exact ⟨⟨hgrow, trivial⟩, fun _ hst => ⟨hst.1.trans hgrow, hst.2⟩⟩

/-- A share is one that was there, up to its count, or was made. -/
theorem share_cases {q : Request} {o : Oracle} {α : Type} {e : Stmt α} {a : α} {s s' : Store} {x : Share}
    (hx : exec o e s = some (a, s')) (hmem : x ∈ s'.db.shares) :
    (∃ y ∈ s.db.shares, x = y ∨ x = y.downloaded) ∨ x ∈ makesShare (.call s q o e a) := by
  cases e with
  | write w =>
    obtain ⟨db', hw, rfl⟩ := exec_write hx
    obtain hold | ⟨-, -, hmakes⟩ := Write.share_cases hw hmem
    · exact Or.inl hold
    cases w with
    | createShare fileID userID passwordHash expiresAt maxDownloads =>
      obtain ⟨-, rfl⟩ | ⟨share, -, hu, -, rfl, rfl⟩ := Write.createShare_cases hw
      · exact Or.inl ⟨x, hmem, Or.inl rfl⟩
      · rcases (Table.mem_insert hu).1 hmem with rfl | hmem
        · exact Or.inr rfl
        · exact Or.inl ⟨x, hmem, Or.inl rfl⟩
    | _ => exact hmakes.elim
  | _ =>
    rw [exec_db rfl hx] at hmem
    exact Or.inl ⟨x, hmem, Or.inl rfl⟩

/-- Every row is a share that a step has made, up to its count. -/
def RowsMade (tr : List ServiceStep) (s : Store) : Prop :=
  ∀ x ∈ s.db.shares, ∃ st ∈ tr, ∃ sh ∈ makesShare st, ∃ n, x = sh.withCount n

theorem RowsMade.cons {tr : List ServiceStep} {s s' : Store} (h : RowsMade tr s) (hdb : s'.db = s.db)
    (st : ServiceStep) : RowsMade (st :: tr) s' := fun x hx =>
  (h x (hdb ▸ hx)).imp fun _ hst => ⟨List.mem_cons_of_mem _ hst.1, hst.2⟩

theorem RowsMade.call {tr : List ServiceStep} {q : Request} {o : Oracle} {α : Type} {e : Stmt α} {a : α}
    {s s' : Store} (h : RowsMade tr s) (hx : exec o e s = some (a, s')) :
    RowsMade (.call s q o e a :: tr) s' := by
  intro x hmem
  obtain ⟨y, hy, hxy⟩ | hmade := share_cases hx hmem
  · obtain ⟨st, hst, sh, hsh, n, rfl⟩ := h y hy
    refine ⟨st, List.mem_cons_of_mem _ hst, sh, hsh, ?_⟩
    obtain rfl | rfl := hxy
    · exact ⟨n, rfl⟩
    · exact ⟨n + 1, rfl⟩
  · exact ⟨_, List.mem_cons_self, x, hmade, x.downloadCount, rfl⟩

theorem rows_made (h : (services deps).Reaches Machine.anySchedule (start (Store.fresh users)) c) :
    RowsMade c.trace c.store := by
  refine (provenance_valid deps).carry (J := RowsMade) h (Outline.good_init (wellFormed_fresh users))
    (fun _ _ => trivial) (fun x hx => absurd hx List.not_mem_nil) ?_ ?_ ?_
  · intro tr q s s' hJ _ _ hq
    rw [services_launch] at hq
    exact hJ.cons (launch_cases hq).1 _
  · intro tr q o α e a s s' hJ _ _ _ hx
    rw [services_exec] at hx
    exact hJ.call hx
  · intro tr v s s' hJ _ _ hv
    rw [services_env] at hv
    exact hJ.cons (env_cases hv).1 _

/-- A share that a step of a run has made was asked for by the owner of its file. -/
theorem madeBy_of_makesShare
    (h : (services deps).Reaches Machine.anySchedule (start (Store.fresh users)) c) {st : ServiceStep}
    (hst : st ∈ c.trace) {sh : Share} (hsh : sh ∈ makesShare st) : sh.madeBy st := by
  obtain ⟨newer, older, hc⟩ := List.append_of_mem hst
  have hrequested := (steps_known h st hst).2
  cases st with
  | call s q o e a =>
    cases e with
    | write w =>
      cases w with
      | createShare fileID owner passwordHash expiresAt maxDownloads =>
        cases a with
        | ok x =>
          obtain rfl := Option.some.inj hsh
          obtain ⟨⟨hist, -, hnamed⟩, s', hx⟩ := h.call_recalls (fun q s _ _ => opens_handler q) hc
          obtain ⟨id, req, rfl⟩ := hrequested
          rw [services_exec] at hx
          obtain ⟨db', hw, -⟩ := exec_write hx
          obtain ⟨hfails, -⟩ | ⟨share, rfl, -, -, hshare, -⟩ := Write.createShare_cases hw
          · cases hfails
          · obtain rfl := Except.ok.inj hshare
            exact ⟨rfl, rfl, hnamed _ _ _ rfl⟩
        | error e => cases hsh
      | _ => cases hsh
    | _ => cases hsh
  | _ => cases hsh

/-- **A link opens what its owner has shared.**  Whatever runs at once, a URL that is answered for a token is
for the object of the file that a link was made for by its owner, was answered for the link's password, and
the link had not expired and was under its limit when the request looked; so was it for what the page of
a link shows. -/
theorem link_opens_shared (deps : Deps) (users : Table User) {c : Services}
    (h : (services deps).Reaches Machine.anySchedule (start (Store.fresh users)) c) {q : Request} {r : Reply}
    (hth : ⟨q, .ret r⟩ ∈ c.threads) :
    ∃ hist, hist.Sublist c.trace ∧ (services deps).Took q ((services deps).handler q) hist (.ret r) ∧
      LinkAnswer deps (Opened c.trace hist q) q r := by
  obtain ⟨hist, hsub, htook⟩ := h.took _ hth
  refine ⟨hist, hsub, htook, ?_⟩
  have hanswer : LinkAnswer deps (FoundFile q hist) q r :=
    Machine.Recalls.took (P := MakesNamed) (opens_handler q) htook
  have key : ∀ x f, FoundFile q hist x f →
      ∃ sh n, x = sh.withCount n ∧ Opened c.trace hist q sh f := by
    intro x f hf
    obtain ⟨s, o, hst, hrow⟩ := hf.row
    obtain ⟨s', o', hst', hfile⟩ := hf.file
    obtain ⟨older, hsuffix, hmade, hwf, hlinked⟩ := h.at_step
      (K := fun tr s => RowsMade tr s ∧ WellFormed s ∧ Linked s)
      (fun c hc => ⟨rows_made hc, linked_always deps users hc⟩) (hsub.subset hst)
    obtain ⟨-, -, hwf', -⟩ := h.at_step (K := fun _ s => WellFormed s ∧ Linked s)
      (fun c hc => linked_always deps users hc) (hsub.subset hst')
    obtain ⟨mk, hmk, sh, hsh, n, rfl⟩ := hmade x hrow
    have hmadeBy := madeBy_of_makesShare h (hsuffix.subset (List.mem_cons_of_mem _ hmk)) hsh
    have hshared : f.userID = sh.userID := by
      have hf' : FileIDKnown c.store f.userID sh.fileID := (show f.id = sh.fileID from hf.shared) ▸
        (hwf'.file f hfile).idKnown.mono (steps_known h _ (hsub.subset hst')).1
      exact hf'.user_eq ((hlinked.share _ hrow).mono (steps_known h _ (hsub.subset hst)).1)
    exact ⟨sh, n, rfl, hf.token, ⟨s, o, n, hst, hrow, hf.limit, older, hsuffix, mk, hmk, hmadeBy⟩,
      hf.clock, ⟨s', o', hst', hfile⟩, hf.shared, hshared⟩
  cases q with
  | shareDownloadURL token body =>
    cases r with
    | downloadURL url expiresAt =>
      obtain ⟨x, f, hf, hpassword, hready, hkey⟩ := hanswer
      obtain ⟨sh, n, rfl, hopened⟩ := key x f hf
      exact ⟨sh, f, hopened, hpassword, hready, hkey⟩
    | _ => trivial
  | getPublicShare token =>
    cases r with
    | publicShare p =>
      obtain ⟨x, f, hf, hp⟩ := hanswer
      obtain ⟨sh, n, rfl, hopened⟩ := key x f hf
      exact ⟨sh, f, hopened, hp⟩
    | _ => trivial
  | _ => trivial

end Runs

/-- Alice uploads a text and makes a link with a password, and somebody who has the password follows it. -/
def shareAndFetch : List (Move Request Oracle EnvMove) :=
  [.start (.presign 1 (some ⟨lit "a.txt", 3, lit "text/plain", none⟩)), .step 0 {}, .step 0 {},
    .step 0 { uuid := 100 }, .step 0 {}, .step 0 {},
    .env (.put (storageKey 1 100 (lit "a.txt")) [1, 2, 3]),
    .start (.complete 1 (text 100)), .step 1 {}, .step 1 {}, .step 1 {},
    .start (.createShare 1 (text 100) ⟨some 1, some (lit "secret"), some 1⟩), .step 2 {}, .step 2 {},
    .step 2 {}, .step 2 { output := lit "secret" }, .step 2 { uuid := 200, token := lit "token" },
    .start fetchShared, .step 3 {}, .step 3 {}, .step 3 {}, .step 3 {}, .step 3 {}, .step 3 {}]

/-- The last request was answered with a URL for the text. -/
def fetched (c : Services) : Bool :=
  match c.threads with
  | [_, _, _, ⟨.shareDownloadURL _ _, .ret (.downloadURL url _)⟩] =>
    url.key = storageKey 1 100 (lit "a.txt")
  | _ => false

theorem link_opens_shared_password : ∃ c : Services,
    (services plainDeps).Reaches Machine.anySchedule (start (Store.fresh aliceOnly)) c ∧
    ∃ q url expiresAt hist sh f, ⟨q, .ret (.downloadURL url expiresAt)⟩ ∈ c.threads ∧
      url.key = storageKey 1 100 (lit "a.txt") ∧ hist.Sublist c.trace ∧ Opened c.trace hist q sh f ∧
      url.key = f.storageKey := by
  obtain ⟨c, hc, hP⟩ := exists_run Machine.anySchedule shareAndFetch fetched (by decide +kernel)
  refine ⟨c, hc, ?_⟩
  unfold fetched at hP
  split at hP
  · next a b d token body url expiresAt hthreads =>
    have hth : ⟨.shareDownloadURL token body, .ret (.downloadURL url expiresAt)⟩ ∈ c.threads := by
      simp [hthreads]
    obtain ⟨hist, hsub, -, sh, f, hopened, -, -, hkey⟩ := link_opens_shared plainDeps aliceOnly hc hth
    exact ⟨_, url, expiresAt, hist, sh, f, hth, of_decide_eq_true hP, hsub, hopened, hkey⟩
  · cases hP

end Optiflow
