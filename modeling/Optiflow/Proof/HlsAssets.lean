import Optiflow.Lib.History
import Optiflow.Proof.BackedCalls
import Optiflow.Proof.CleanPaths
import Optiflow.Proof.Smoothly
import Optiflow.Proof.WorkerCalls

/-!
# The assets of a video

The proxy is given a path and reads an object; the video worker, in another service, chooses the keys.
The proxy reads nothing but what lies under the prefix of a file of its user, and it reads everything
that the worker stores there (`assets_reached`).
-/

namespace Optiflow

open Interleave Code UploadSvc ApiSvc Workers

/-! ## The property -/

/-- The key is below the file's prefix, and every element after the prefix names something. -/
def AssetOf (id : UUID) (key : GoString) : Prop :=
  ∃ elements : List GoString, elements ≠ [] ∧ (∀ e ∈ elements, GoPath.Element e) ∧
    key = hlsPrefix id ++ GoPath.join elements

/-- The call opens or reads the object. -/
def Stmt.readsKey {α : Type} (key : GoString) : Stmt α → Prop
  | .bucket (.getObject k) => k = key
  | .bucket (.readObject k) => k = key
  | _ => False

/-- The store has the user's file, and it has a playlist. -/
def Store.HasVideo (s : Store) (userID id : UUID) : Prop :=
  ∃ f ∈ s.db.files, f.id = id ∧ f.userID = userID ∧ f.playlistKey.isSome = true

/-- When no call fails, the request has a run, and every run reads the object and answers with it. -/
def Streams (deps : Deps) (s : Store) (userID : UUID) (id asset key : GoString) : Prop :=
  let q := Request.hlsAsset userID id asset
  (∃ tr r t, (services deps).Finishes q ((services deps).handler q) s tr r t ∧
    ∀ st ∈ tr, succeeds st = true) ∧
  ∀ tr r t, (services deps).Finishes q ((services deps).handler q) s tr r t →
    (∀ st ∈ tr, succeeds st = true) →
      (∃ o a, .call s q o (.bucket (.readObject key)) a ∈ tr) ∧
      r = .asset (assetType (lit "/" ++ asset)) ((s.bucket.object? key).getD [])

/-- The user's video was found before, and the key is that of one of its assets. -/
def Served (userID : UUID) (id key : GoString) (hist : List ServiceStep) : Prop :=
  ∃ fileID, UUID.parse id = some fileID ∧ AssetOf fileID key ∧
    ∃ st ∈ hist, st.before.HasVideo userID fileID

/-- What a call of the proxy or of the video worker may read or store. -/
def AssetCall (q : Request) (hist : List ServiceStep) {α : Type} (e : Stmt α) : Prop :=
  match q with
  | .hlsAsset userID id _ => ∀ key, e.readsKey key → Served userID id key hist
  | .deliver .video msg => e.works msg.task.payload.fileID (TranscodeKey msg.task.payload.fileID)
  | _ => True

abbrev AssetCalls (deps : Deps) (q : Request) (p : Prog Stmt Reply) (hist : List ServiceStep) : Prop :=
  (services deps).Recalls AssetCall (fun _ _ _ => True) q p hist

/-! ## What the proxy reads -/

section Reads

variable {deps : Deps} {userID fileID : UUID} {id asset key : GoString} {s : Store}

theorem assetKey_eq (path : GoString) : assetKey fileID (lit "/" ++ path) = hlsPrefix fileID ++ path := by
  rw [assetKey, hlsPrefix, List.append_assoc (lit "hls/" ++ UUID.string fileID)]

/-- A cleaned path that is not the root leads to an asset. -/
theorem assetOf_cleanRooted (h : GoPath.cleanRooted asset ≠ lit "/") :
    AssetOf fileID (assetKey fileID (GoPath.cleanRooted asset)) := by
  obtain ⟨elements, helements, hclean⟩ := GoPath.elements_cleanRooted asset
  refine ⟨elements, ?_, helements, by rw [hclean, assetKey_eq]⟩
  rintro rfl
  exact h hclean

/-- An asset is one of a single file. -/
theorem AssetOf.id_eq {other : UUID} (h : AssetOf fileID key) (hother : hlsPrefix other <+: key) :
    other = fileID := by
  obtain ⟨elements, -, -, rfl⟩ := h
  exact hlsPrefix_inj hother (List.prefix_append _ _)

theorem assetCalls_hlsAsset (hist : List ServiceStep) :
    AssetCalls deps (.hlsAsset userID id asset) (hlsAsset userID id asset .ret) hist := by
  have answer : ∀ (hist : List ServiceStep) (status : ℕ) (message : String),
      AssetCalls deps (.hlsAsset userID id asset) (.ret (.error status message)) hist :=
    fun _ _ _ => trivial
  refine Early.parseID (P := fun p => AssetCalls deps _ p hist) (answer _) fun fileID hid => ?_
  refine ⟨fun key hkey => hkey.elim, fun o a s s' hx => ?_⟩
  rw [services_exec] at hx
  obtain ⟨rfl, rfl⟩ := exec_query hx
  refine Early.found (P := fun p => AssetCalls deps _ p _) (answer _) fun file hfile => ?_
  obtain ⟨hmem, hfileID, huser⟩ := Query.file_ok hfile
  refine Early.failIf (P := fun p => AssetCalls deps _ p _) (answer _) fun hplay => ?_
  refine Early.failIf (P := fun p => AssetCalls deps _ p _) (answer _) fun hclean => ?_
  have hvideo : s'.HasVideo userID fileID :=
    ⟨file, hmem, hfileID, huser, Option.isSome_iff_ne_none.2 hplay⟩
  have served : ∀ hist' : List ServiceStep, (∃ st ∈ hist', st.before = s') →
      Served userID id (assetKey file.id (GoPath.cleanRooted asset)) hist' := by
    rintro hist' ⟨st, hst, hbefore⟩
    exact ⟨fileID, hid, hfileID ▸ assetOf_cleanRooted (not_or.1 hclean).1, st, hst, hbefore ▸ hvideo⟩
  refine ⟨fun key hkey => hkey ▸ served _ ⟨_, List.mem_cons_self, rfl⟩, fun o a s _ _ => ?_⟩
  refine Early.failIf (P := fun p => AssetCalls deps _ p _) (answer _) fun _ => ?_
  exact ⟨fun key hkey => hkey ▸ served _ ⟨_, List.mem_cons_of_mem _ List.mem_cons_self, rfl⟩,
    fun _ _ _ _ _ => trivial⟩

end Reads

/-! ## The names are clean -/

theorem numeral_notMem {n : ℤ} {c : UInt8} (hc : numeral c = false) : c ∉ decimal n := fun h => by
  rw [numeral_of_mem_decimal h] at hc
  cases hc

theorem notMem_decimal3 {i : ℕ} {c : UInt8} (hc : numeral c = false) : c ∉ decimal3 i := by
  have hzero : c ≠ 48 := by
    rintro rfl
    cases hc
  unfold decimal3
  simp only [List.mem_append, List.mem_replicate, not_or, not_and]
  exact ⟨fun _ => hzero, numeral_notMem hc⟩

/-- A name has one dot and no slash. -/
theorem AssetName.count_dot {name : GoString} (h : AssetName name) : name.count 46 = 1 := by
  have hdecimal : ∀ n : ℤ, (decimal n).count 46 = 0 := fun n =>
    List.count_eq_zero.2 (numeral_notMem rfl)
  have hdecimal3 : ∀ i : ℕ, (decimal3 i).count 46 = 0 := fun i =>
    List.count_eq_zero.2 (notMem_decimal3 rfl)
  cases h with
  | poster => decide
  | master => decide
  | playlist hr =>
    have hext : (lit "p").count 46 = 0 ∧ (lit ".m3u8").count 46 = 1 := by decide
    simp only [hr, List.count_append, hdecimal, hext]
  | segment i hr =>
    have hext : (lit "p").count 46 = 0 ∧ (lit "_").count 46 = 0 ∧ (lit ".ts").count 46 = 1 := by decide
    simp only [hr, List.count_append, hdecimal, hdecimal3, hext]

theorem AssetName.noSlash {name : GoString} (h : AssetName name) : 47 ∉ name := by
  cases h with
  | poster => decide
  | master => decide
  | playlist hr =>
    have hext : 47 ∉ lit "p" ∧ 47 ∉ lit ".m3u8" := by decide
    simp only [hr, List.mem_append, numeral_notMem (c := 47) rfl, hext, or_self, not_false_eq_true]
  | segment i hr =>
    have hext : 47 ∉ lit "p" ∧ 47 ∉ lit "_" ∧ 47 ∉ lit ".ts" := by decide
    simp only [hr, List.mem_append, numeral_notMem (c := 47) rfl, notMem_decimal3 (c := 47) rfl, hext,
      or_self, not_false_eq_true]

/-- A name is more than its dot. -/
theorem AssetName.ne_dot {name : GoString} (h : AssetName name) : name ≠ lit "." := by
  have letter : ∃ c ∈ name, c ≠ 46 := by
    cases h with
    | poster => exact ⟨112, by decide, by decide⟩
    | master => exact ⟨109, by decide, by decide⟩
    | playlist hr => exact ⟨109, List.mem_append_right _ (by decide), by decide⟩
    | segment i hr => exact ⟨115, List.mem_append_right _ (by decide), by decide⟩
  rintro rfl
  obtain ⟨c, hc, hne⟩ := letter
  exact hne (List.mem_singleton.1 hc)

theorem AssetName.element {name : GoString} (h : AssetName name) : GoPath.Element name where
  ne_nil := by
    rintro rfl
    exact absurd h.count_dot (by decide)
  ne_dot := h.ne_dot
  ne_dots := by
    rintro rfl
    exact absurd h.count_dot (by decide)
  noSlash := h.noSlash

/-! ## What the owner can reach -/

section Streams

variable {deps : Deps} {s : Store} {f : File} {id : GoString}

/-- Every clean path without two dots in a row is streamed. -/
theorem streams_join (hf : f ∈ s.db.files) (hplay : f.playlistKey.isSome = true)
    (hid : UUID.parse id = some f.id) {elements : List GoString} (hne : elements ≠ [])
    (helements : ∀ e ∈ elements, GoPath.Element e)
    (hdots : ¬lit ".." <:+: lit "/" ++ GoPath.join elements) :
    Streams deps s f.userID id (GoPath.join elements) (hlsPrefix f.id ++ GoPath.join elements) := by
  have hclean := GoPath.cleanRooted_clean helements hne
  have hroot : lit "/" ++ GoPath.join elements ≠ lit "/" := by
    intro h
    have hjoin : GoPath.join elements = [] := List.append_cancel_left (h.trans (List.append_nil _).symm)
    have hsplit := GoPath.splitOn_join (fun e he => (helements e he).noSlash) hne
    rw [hjoin, List.splitOn_nil] at hsplit
    exact (helements [] (hsplit ▸ List.mem_singleton_self _)).ne_nil rfl
  have hends : (services deps).Ends (fun st => succeeds st = true)
      (.hlsAsset f.userID id (GoPath.join elements))
      (hlsAsset f.userID id (GoPath.join elements) .ret) s fun tr r _ =>
        (∃ o a, .call s (.hlsAsset f.userID id (GoPath.join elements)) o
          (.bucket (.readObject (hlsPrefix f.id ++ GoPath.join elements))) a ∈ tr) ∧
        r = .asset (assetType (lit "/" ++ GoPath.join elements))
          ((s.bucket.object? (hlsPrefix f.id ++ GoPath.join elements)).getD []) := by
    show (services deps).Ends _ _ (parseID id "invalid file id" _) s _
    rw [parseID_apply hid]
    intro o a s' ho hx
    have hfails : o.fails = false := by simpa [succeeds] using ho
    rw [services_exec] at hx
    obtain ⟨rfl, rfl⟩ := exec_query hx
    rw [Query.run, hfails, if_neg Bool.false_ne_true, Query.eval_file_of_mem hf]
    show (services deps).Ends _ _ (failIf (f.playlistKey = none) 404 _ _) _ _
    rw [failIf_apply (Option.isSome_iff_ne_none.1 hplay)]
    show (services deps).Ends _ _ (failIf (GoPath.cleanRooted (GoPath.join elements) = lit "/" ∨
      lit ".." <:+: GoPath.cleanRooted (GoPath.join elements)) 400 _ _) _ _
    rw [hclean, failIf_apply (not_or.2 ⟨hroot, hdots⟩)]
    intro o' a' s' ho' hx
    have hopens : o'.fails = false := by simpa [succeeds] using ho'
    obtain ⟨rfl, rfl⟩ := Prod.mk.inj (Option.some.inj hx)
    show (services deps).Ends _ _ (failIf ((!o'.fails) = false) 404 _ _) _ _
    rw [failIf_apply (by simp [hopens]), assetKey_eq]
    intro o'' a'' s'' ho'' hx
    have hreads : o''.fails = false := by simpa [succeeds] using ho''
    obtain ⟨rfl, rfl⟩ := Prod.mk.inj (Option.some.inj hx)
    refine ⟨⟨_, _, List.mem_cons_of_mem _ (List.mem_cons_of_mem _ List.mem_cons_self)⟩, ?_⟩
    simp only [BucketStmt.run, hreads, Bool.false_eq_true, if_false]
  refine ⟨?_, fun tr r t hrun htr => hrun.of_ends hends htr⟩
  exact (canSucceed_looks (k := .ret) (hlsAsset f.userID id _) (looks_hlsAsset _ _ _)
    fun _ => trivial).finishes

end Streams

/-! ## The result -/

theorem assetCalls_handler {deps : Deps} (q : Request) (hist : List ServiceStep) :
    AssetCalls deps q ((services deps).handler q) hist := by
  have other : (∀ hist {α : Type} (e : Stmt α), AssetCall q hist e) →
      AssetCalls deps q ((services deps).handler q) hist := fun h =>
    Machine.recalls_of_makes (Prog.makes_of_forall (fun e hist => h hist e) _) (fun _ _ => trivial) hist
  cases q with
  | hlsAsset userID id asset => exact assetCalls_hlsAsset hist
  | deliver worker msg =>
    cases worker with
    | image => exact other fun _ _ _ => trivial
    | video =>
      exact Machine.recalls_of_makes (works_deliver_video.mono fun _ he _ => he)
        (fun _ _ => trivial) hist
  | _ => exact other fun _ _ _ => trivial

/-- **The proxy reaches all and only the assets of the user's own videos.** -/
theorem assets_reached (deps : Deps) {s₀ : Store} {c : Services}
    (hc : (services deps).Reaches Machine.anySchedule (.init s₀) c) :
    (∀ {newer older : List ServiceStep} {s : Store} {userID : UUID} {id asset key : GoString}
      {o : Oracle} {α : Type} {e : Stmt α} {a : α},
      c.trace = newer ++ .call s (.hlsAsset userID id asset) o e a :: older → e.readsKey key →
      ∃ fileID, UUID.parse id = some fileID ∧ (∃ st ∈ older, st.before.HasVideo userID fileID) ∧
        AssetOf fileID key ∧ ∀ other, hlsPrefix other <+: key → other = fileID) ∧
    ∀ {s : Store} {msg : Message} {o : Oracle} {key contentType : GoString} {body : Bytes} {size : Int64}
      {a : Bool}, .call s (.deliver .video msg) o (.bucket (.putObject key body size contentType)) a ∈ c.trace →
      ∃ asset, key = hlsPrefix msg.task.payload.fileID ++ asset ∧
        ∀ (t : Store), ∀ f ∈ t.db.files, f.id = msg.task.payload.fileID →
          f.playlistKey.isSome = true → ∀ id, UUID.parse id = some f.id →
            Streams deps t f.userID id asset key := by
  have justified : ∀ {newer older : List ServiceStep} {s : Store} {q : Request} {o : Oracle} {α : Type}
      {e : Stmt α} {a : α}, c.trace = newer ++ .call s q o e a :: older →
      ∃ hist, hist.Sublist older ∧ AssetCall q hist e := fun htrace =>
    (hc.call_recalls (fun q _ _ _ => assetCalls_handler q _) htrace).1
  constructor
  · intro newer older s userID id asset key o α e a htrace hkey
    obtain ⟨hist, hsub, hcall⟩ := justified htrace
    obtain ⟨fileID, hid, hasset, st, hst, hvideo⟩ := hcall key hkey
    exact ⟨fileID, hid, ⟨st, hsub.subset hst, hvideo⟩, hasset, fun other => hasset.id_eq⟩
  · intro s msg o key contentType body size a hmem
    obtain ⟨newer, older, htrace⟩ := List.append_of_mem hmem
    obtain ⟨hist, -, name, hname, hkey⟩ := justified htrace
    refine ⟨name, hkey, fun t f hf hfid hplay id hid => ?_⟩
    rw [hkey, ← hfid, ← GoPath.join_singleton name]
    have hdots : ¬lit ".." <:+: lit "/" ++ GoPath.join [name] := by
      refine GoPath.not_dots_infix ?_
      rw [GoPath.join_singleton, List.count_append, hname.count_dot]
      decide
    exact streams_join hf hplay hid (List.cons_ne_nil _ _)
      (fun e he => List.mem_singleton.1 he ▸ hname.element) hdots

/-! ### A rendition -/

/-- The step is one of Alice's reads of a rendition of the video. -/
def readsRendition : ServiceStep → Bool
  | .call _ (.hlsAsset userID id asset) _ (.bucket (.readObject key)) _ =>
    userID = 1 && id = text 100 && asset = lit "../a/..//360p.m3u8" &&
      key = hlsPrefix 100 ++ lit "360p.m3u8"
  | _ => false

/-- A path that leaves the video and comes back is cleaned first. -/
theorem assets_reached_rendition :
    ∃ c : Services, (services plainDeps).Reaches Machine.anySchedule (start (Store.fresh aliceOnly)) c ∧
      ∃ s o a, .call s (.hlsAsset 1 (text 100) (lit "../a/..//360p.m3u8")) o
        (.bucket (.readObject (hlsPrefix 100 ++ lit "360p.m3u8"))) a ∈ c.trace ∧
      ∃ fileID, UUID.parse (text 100) = some fileID ∧
        AssetOf fileID (hlsPrefix 100 ++ lit "360p.m3u8") := by
  obtain ⟨c, hc, hP⟩ := exists_run Machine.anySchedule
    (finishVideo ++ [.start (.hlsAsset 1 (text 100) (lit "../a/..//360p.m3u8")), .step 3 {},
      .step 3 {}, .step 3 {}])
    (fun c => c.trace.any readsRendition) (by decide +kernel)
  obtain ⟨st, hst, hreads⟩ := List.any_eq_true.1 hP
  unfold readsRendition at hreads
  split at hreads
  · next s userID id asset o key a =>
    simp only [Bool.and_eq_true, decide_eq_true_eq] at hreads
    obtain ⟨⟨⟨rfl, rfl⟩, rfl⟩, rfl⟩ := hreads
    obtain ⟨newer, older, htrace⟩ := List.append_of_mem hst
    obtain ⟨fileID, hid, -, hasset, -⟩ := (assets_reached plainDeps hc).1 htrace rfl
    exact ⟨c, hc, s, o, a, hst, fileID, hid, hasset⟩
  · cases hreads

end Optiflow
