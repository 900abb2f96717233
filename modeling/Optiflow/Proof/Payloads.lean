import Optiflow.Proof.Finished
import Optiflow.Proof.Messages
import Optiflow.Proof.TusUploads

/-!
# Payloads in the queue

A payload is marshalled, and JSON has only UTF-8: a key with other bytes would reach the worker changed.
No such key gets that far.  Names that come in JSON are UTF-8, those of resumable uploads are what the
object store lets pass, and a rename or a new version has only such names to go on from.  So every task of
the queue reads as it was enqueued, in every state of every run (`payloads_arrive`).
-/

namespace Optiflow

open Interleave UploadSvc ApiSvc
open Json (ValidUTF8 toValidUTF8)

/-! ## What the object store takes for UTF-8 -/

section Runes

variable {c : UInt8} {s : GoString} {n : ℕ}

theorem validUTF8From_continues {low high : UInt8} (n : ℕ) :
    validUTF8From n low high s = (Json.continues n low high s && validUTF8 (s.drop n)) := by
  induction n generalizing low high s with
  | zero =>
    have hzero : validUTF8From 0 low high s = validUTF8 s := by
      cases s <;> rfl
    simp [Json.continues, hzero]
  | succ n ih =>
    cases s with
    | nil => rfl
    | cons c s =>
      rw [validUTF8From, ih, Json.continues, List.drop_succ_cons]
      simp only [Bool.and_assoc]

theorem validUTF8_cons : validUTF8 (c :: s) =
    (Json.runeTail c s).elim false fun n => validUTF8 (s.drop n) := by
  rw [validUTF8, validUTF8From]
  simp only [Json.runeTail, validUTF8From_continues]
  split_ifs <;> simp_all [Json.continues]

/-- The three bytes of U+FFFD are a rune. -/
theorem toValidUTF8_ne (h : Json.runeTail c s = none) : toValidUTF8 (c :: s) ≠ c :: s := by
  rw [Json.toValidUTF8_bad h]
  generalize toValidUTF8 s = t
  have hbytes : Json.encodeRune 0xFFFD = [0xEF, 0xBF, 0xBD] := by decide
  rw [hbytes]
  rintro heq
  obtain ⟨rfl, rfl⟩ := List.cons.inj heq
  exact absurd h (by simp [Json.runeTail, Json.continues])

/-- A text that is not changed has no byte that stands alone. -/
theorem validUTF8_iff (s : GoString) : validUTF8 s = true ↔ ValidUTF8 s := by
  induction s using Json.runeInduction with
  | nil => exact iff_of_true rfl rfl
  | bad c s h ih =>
    rw [validUTF8_cons, h]
    exact iff_of_false Bool.false_ne_true (toValidUTF8_ne h)
  | rune c s n h ih =>
    rw [validUTF8_cons, h, ValidUTF8, Json.toValidUTF8_rune h]
    refine ih.trans ⟨fun hs => ?_, fun hs => ?_⟩
    · rw [hs, List.take_append_drop]
    · have htail : s.take n ++ toValidUTF8 (s.drop n) = s.take n ++ s.drop n := by
        rw [List.take_append_drop]
        exact (List.cons.inj hs).2
      exact List.append_cancel_left htail

end Runes

/-! ## The invariant -/

/-- The names of files and the keys that they were born with are UTF-8. -/
structure Spelled (s : Store) : Prop where
  name : ∀ f ∈ s.db.files, ValidUTF8 f.name
  key : ∀ b ∈ s.db.files.births, ValidUTF8 b.storageKey

/-- What a call that makes or saves a file must know of its name. -/
def CallSpelled {α : Type} : Stmt α → Prop
  | .write (.createFile mk) => ∀ id, ValidUTF8 (mk id).name ∧ ValidUTF8 (mk id).storageKey
  | .write (.presignVersion _ _ mk) => ∀ id, ValidUTF8 (mk id).name ∧ ValidUTF8 (mk id).storageKey
  | .write (.saveFile f) => ValidUTF8 f.name
  | _ => True

/-- Where the request names a file, the name has been decoded from the bytes of a body. -/
def Request.Decoded : Request → Prop
  | .presign _ (some req) => ∃ body, decodePresign body = some req
  | .updateFile _ _ (some req) => ∃ body, decodeFileUpdate body = some req
  | _ => True

/-- Names are decoded from bytes, and the object store does not take a key that it refuses. -/
def Spells : ServiceStep → Prop
  | .start _ q => q.Decoded
  | .call _ _ _ (.bucket (.putObject key _ _ _)) stored => badKey key = true → stored = false
  | _ => True

/-- The requests that make or save files. -/
def Request.savesFiles : Request → Bool
  | .presign _ _ => true
  | .complete _ _ => true
  | .presignVersion _ _ _ => true
  | .finishTusUpload _ => true
  | .updateFile _ _ _ => true
  | _ => false

/-- The outline of names. -/
def spelling (deps : Deps) : Outline (services deps) where
  inv := Spelled
  rely _ _ := True
  pre q _ e _ := q.savesFiles = true → CallSpelled e
  post _ _ := True
  cond := Spells

section Steps

variable {s s' : Store} {q : Request} {α : Type} {e : Stmt α} {o : Oracle} {a : α}

/-- The other requests make and save no file. -/
theorem CallKnown.spelled (hw : CallKnown s q e) (h : q.savesFiles = true → CallSpelled e) :
    CallSpelled e := by
  cases e with
  | write w =>
    cases w with
    | createFile mk =>
      obtain ⟨-, -, ⟨-, userID, body, rfl⟩ | ⟨upload, rfl, -⟩⟩ := hw 0
      · exact h rfl
      · exact h rfl
    | presignVersion userID root mk =>
      obtain ⟨⟨id, body, rfl⟩, -⟩ := hw
      exact h rfl
    | saveFile g =>
      obtain ⟨⟨userID, id, rfl⟩ | ⟨userID, id, body, rfl⟩, -⟩ := hw
      · exact h rfl
      · exact h rfl
    | _ => trivial
  | _ => trivial

theorem Spelled.of_db_eq (h : Spelled s) (hdb : s'.db = s.db) : Spelled s' :=
  ⟨hdb ▸ h.name, hdb ▸ h.key⟩

theorem Spelled.fileKnown (h : Spelled s) {f : File} (hf : FileKnown s f) : ValidUTF8 f.storageKey := by
  obtain ⟨b, hb, hid⟩ := hf
  have hkey : b.storageKey = f.storageKey := congrArg File.Identity.storageKey hid
  exact hkey ▸ h.key b hb

/-- A row that is written keeps its key, or gets a new one. -/
theorem Spelled.wrote (h : Spelled s) (hwf : WellFormed s) (hw : CallKnown s q e) (hl : CallSpelled e)
    (hx : Optiflow.exec o e s = some (a, s')) {f : File} (hf : Wrote s f e a) :
    ValidUTF8 f.name ∧ ValidUTF8 f.storageKey := by
  cases e with
  | write w =>
    obtain ⟨db', hrun, rfl⟩ := exec_write hx
    cases w with
    | createFile mk =>
      obtain ⟨rfl, -⟩ | ⟨-, -, -, rfl, -⟩ := Write.createFile_cases hrun
      · exact hf.elim
      · exact hf.1 ▸ hl o.uuid
    | presignVersion userID root mk =>
      obtain ⟨rfl, -⟩ | ⟨-, -, -, rfl, -⟩ := Write.presignVersion_cases hrun
      · exact hf.elim
      · exact hf.1 ▸ hl o.uuid
    | saveFile g =>
      obtain ⟨rfl, -⟩ | ⟨rfl, -⟩ := Write.saveFile_cases hrun
      · exact hf.elim
      · have hrow : f = s.db.savedRow g := hf
        have hg : ValidUTF8 g.name ∧ ValidUTF8 g.storageKey := ⟨hl, h.fileKnown hw.2⟩
        obtain hsaved | hsaved := s.db.savedRow_eq g <;> rw [hrow, hsaved] <;> exact hg
    | updateFile id u =>
      obtain ⟨rfl, -⟩ | ⟨rfl, -⟩ := Write.updateFile_cases hrun
      · exact hf.elim
      · obtain ⟨g, hg, -, rfl⟩ := hf
        exact ⟨h.name g hg, h.fileKnown (hwf.file g hg)⟩
    | _ => exact hf.elim
  | _ => exact hf.elim

theorem Spelled.exec (h : Spelled s) (hwf : WellFormed s) (hw : CallKnown s q e) (hl : CallSpelled e)
    (hx : Optiflow.exec o e s = some (a, s')) : Spelled s' := by
  refine ⟨fun f hf => ?_, fun b hb => ?_⟩
  · obtain ⟨g, hg, b, rfl⟩ | hf := file_cases hx hf
    · exact h.name g hg
    · exact (h.wrote hwf hw hl hx hf).1
  · obtain hb | hb := birth_cases hx hb
    · exact h.key b hb
    · exact (h.wrote hwf hw hl hx hb).2

end Steps

/-! ## Reading the handlers -/

section Handlers

variable {deps : Deps} {q : Request} {s : Store} {α : Type}

/-- Reading a program against `spelling`. -/
abbrev Spelling (deps : Deps) (q : Request) (p : Prog Stmt Reply) (s : Store) : Prop :=
  (spelling deps).Safe q p s

theorem spelling_answer (status : ℕ) (message : String) :
    (spelling deps).post q (.error status message) := trivial

/-- A call that neither makes nor saves a file. -/
theorem spelling_call {e : Stmt α} {k : α → Prog Stmt Reply} (he : CallSpelled e)
    (h : ∀ a t, Spelling deps q (k a) t) : Spelling deps q ((Code.call e : Handler α) k) s :=
  safe_call (fun _ _ _ _ => he) fun a _ _ t _ _ _ _ _ => h a t

theorem spelling_query {qy : Query α} {k : Except DbError α → Prog Stmt Reply}
    (h : ∀ o t, Spelled t → Spelling deps q (k (qy.run o t.db)) t) :
    Spelling deps q (query qy k) s :=
  safe_query (fun _ _ _ _ => trivial) fun o t _ ht _ => h o t ht

/-- Plain calls make and save no file. -/
theorem spelling_over (puts : Bool) (c : Handler α) {k : α → Prog Stmt Reply} (hc : Inert puts c)
    (h : ∀ a t, Spelling deps q (k a) t) : Spelling deps q (c k) s := by
  refine hc (fun p => ∀ t, Spelling deps q p t) (fun e k he hk t => ?_) (fun _ _ _ => trivial) k h s
  refine spelling_call ?_ hk
  cases e with
  | write w => exact he.elim
  | _ => trivial

theorem spelling_enqueueOrLog {task : Option Task} {k : Unit → Prog Stmt Reply}
    (h : ∀ t, Spelling deps q (k ()) t) : Spelling deps q (enqueueOrLog task k) s := by
  cases task with
  | none => exact h s
  | some task => exact spelling_call trivial fun _ t => h t

theorem spelling_presign {userID : UUID} {body : Option PresignRequest}
    (hbody : (Request.presign userID body).Decoded) : Spelling deps q (presign userID body .ret) s := by
  refine safe_decodeBody spelling_answer fun req hreq => safe_failIf spelling_answer fun _ => ?_
  have hname : ValidUTF8 req.name := by
    subst hreq
    obtain ⟨text, htext⟩ := hbody
    exact validUTF8_decodePresign htext
  refine spelling_over true (checkQuota _ _) (reads_checkQuota _ _).inert fun a t => ?_
  refine spelling_over true (orQuotaError a) (silent_orQuotaError a).over fun _ t => ?_
  refine spelling_over true (ownedFolderID _ _) (reads_ownedFolderID _ _).inert fun folderID t => ?_
  refine spelling_call (fun id => ⟨hname, validUTF8_storageKey.2 hname⟩) fun a t => ?_
  refine safe_foundOr spelling_answer fun file _ => ?_
  exact spelling_over _ _ (inert_presignUpload file) fun _ _ => trivial

theorem spelling_complete (userID : UUID) (id : GoString) :
    Spelling deps q (complete userID id .ret) s := by
  refine safe_parseID spelling_answer fun fileID _ => spelling_query fun o t ht => ?_
  refine safe_found spelling_answer fun file hf => safe_failIf spelling_answer fun _ => ?_
  have hname : ValidUTF8 file.name := ht.name file (Query.file_ok hf).1
  refine spelling_call trivial fun a u => ?_
  cases a with
  | none => trivial
  | some size =>
    refine spelling_call hname fun a v => safe_foundOr spelling_answer fun _ _ => ?_
    exact spelling_enqueueOrLog fun _ => trivial

theorem spelling_presignVersion (userID : UUID) (id : GoString) (body : Option PresignVersionRequest) :
    Spelling deps q (presignVersion userID id body .ret) s := by
  refine safe_parseID spelling_answer fun fileID _ => safe_decodeBody spelling_answer fun req _ => ?_
  refine safe_failIf spelling_answer fun _ => spelling_query fun o t _ => ?_
  refine safe_found spelling_answer fun anyVersion _ => ?_
  refine spelling_over true (checkQuota _ _) (reads_checkQuota _ _).inert fun a t => ?_
  refine spelling_over true (orQuotaError a) (silent_orQuotaError a).over fun _ t => ?_
  refine spelling_query fun o t ht => safe_foundOr spelling_answer fun current hcurrent => ?_
  have hname : ValidUTF8 current.name := ht.name current (Query.currentVersion_ok hcurrent).1
  refine spelling_query fun o t _ => safe_foundOr spelling_answer fun maxVersion _ => ?_
  refine spelling_call (fun id => ⟨hname, validUTF8_storageKey.2 hname⟩) fun a t => ?_
  refine safe_foundOr spelling_answer fun file _ => ?_
  exact spelling_over _ _ (inert_presignUpload file) fun _ _ => trivial

/-- What the object store has taken has a name that is UTF-8. -/
theorem spelling_finishTusUpload (upload : Upload) :
    Spelling deps q (finishTusUpload upload .ret) s := by
  unfold finishTusUpload
  cases huser : UUID.parse (upload.metaData.get (lit "user_id")) with
  | none => trivial
  | some userID =>
    refine safe_exitIf (fun _ => trivial) fun _ => spelling_call trivial fun a t => ?_
    cases a with
    | none => trivial
    | some body =>
      refine spelling_call trivial fun fileID u => ?_
      refine safe_call (fun _ _ _ _ => trivial) fun stored v _ w _ _ hstored _ _ => ?_
      refine safe_exitIf (fun _ => trivial) fun hnot => ?_
      have hgood : ¬badKey (tusFile upload userID fileID).storageKey = true :=
        fun hbad => hnot (by rw [hstored hbad]; rfl)
      have hkey : ValidUTF8 (tusFile upload userID fileID).storageKey := by
        rw [badKey, Bool.or_eq_true, not_or, Bool.not_eq_true', Bool.not_eq_false] at hgood
        exact (validUTF8_iff _).1 hgood.2
      refine spelling_call (fun _ => ⟨validUTF8_storageKey.1 hkey, hkey⟩) fun a w => ?_
      cases a with
      | error e => trivial
      | ok file =>
        exact spelling_enqueueOrLog fun _ => spelling_call trivial fun _ _ =>
          spelling_call trivial fun _ _ => trivial

theorem spelling_renameFile {file : File} {name : Option GoString} {k : File → Prog Stmt Reply}
    (hfile : ValidUTF8 file.name) (hname : ∀ n ∈ name, ValidUTF8 n)
    (h : ∀ f, ValidUTF8 f.name → Spelling deps q (k f) s) :
    Spelling deps q (renameFile file name k) s := by
  match name with
  | none => exact h file hfile
  | some [] => trivial
  | some (c :: name) => exact h _ (hname _ rfl)

theorem spelling_moveFile {userID : UUID} {file : File} {folderID : Option GoString}
    {k : File → Prog Stmt Reply} (h : ∀ f t, f.name = file.name → Spelling deps q (k f) t) :
    Spelling deps q (moveFile userID file folderID k) s := by
  match folderID with
  | none => exact h file s rfl
  | some [] => exact h _ s rfl
  | some (c :: text) =>
    refine safe_parseID spelling_answer fun id _ => spelling_query fun o t _ => ?_
    exact safe_foundOr spelling_answer fun folder _ => h _ t rfl

theorem spelling_updateFile {userID : UUID} {id : GoString} {body : Option FileUpdateRequest}
    (hbody : (Request.updateFile userID id body).Decoded) :
    Spelling deps q (updateFile userID id body .ret) s := by
  refine safe_parseID spelling_answer fun fileID _ => spelling_query fun o t ht => ?_
  refine safe_foundOr spelling_answer fun file hf => safe_decodeBody spelling_answer fun req hreq => ?_
  have hname : ∀ name ∈ req.name, ValidUTF8 name := by
    subst hreq
    obtain ⟨text, htext⟩ := hbody
    exact validUTF8_decodeFileUpdate htext
  refine spelling_renameFile (ht.name file (Query.file_ok hf).1) hname fun f₁ h₁ => ?_
  refine spelling_moveFile fun f₂ u h₂ => spelling_call ?_ fun _ _ => ?_
  · show ValidUTF8 f₂.name
    exact h₂ ▸ h₁
  · exact safe_foundOr spelling_answer fun _ _ => trivial

/-- Handlers write only names that are UTF-8. -/
theorem spelling_handler (hq : q.Decoded) : Spelling deps q (q.handler deps .ret) s := by
  cases q with
  | presign userID body => exact spelling_presign hq
  | complete userID id => exact spelling_complete userID id
  | presignVersion userID id body => exact spelling_presignVersion userID id body
  | updateFile userID id body => exact spelling_updateFile hq
  | finishTusUpload upload => exact spelling_finishTusUpload upload
  | _ => exact Outline.safe_of_trivial (fun _ _ hsaves => by cases hsaves) (fun _ => trivial) _ _

end Handlers

/-! ## Runs -/

/-- The task of a file has its id and its key. -/
theorem payload_processingTask {f : File} {t : Task} (h : processingTask f = some t) :
    t.payload = ⟨f.id, f.storageKey⟩ := by
  unfold processingTask at h
  split at h
  · exact Option.some.inj h ▸ rfl
  · split at h
    · exact Option.some.inj h ▸ rfl
    · cases h

theorem spelling_valid (deps : Deps) : ((provenance deps).inf (spelling deps)).Valid where
  rely_refl s := ⟨.refl s, trivial⟩
  rely_trans h h' := ⟨h.1.trans h'.1, trivial⟩
  start _ h hq := by
    have hdb := (launch_cases hq).1
    exact ⟨⟨h.1.launch hq, h.2.of_db_eq hdb⟩, .of_db_eq hdb, trivial⟩
  safe hc h hq _ := (known_handler h.1 hq).inf (spelling_handler hc.2)
  call h hpre _ hx := by
    rw [services_exec] at hx
    exact ⟨⟨h.1.exec hpre.1 hx, h.2.exec h.1 hpre.1 (hpre.1.spelled hpre.2) hx⟩, exec_grows hx, trivial⟩
  env _ h hv := by
    have hdb := (env_cases hv).1
    exact ⟨⟨h.1.env hv, h.2.of_db_eq hdb⟩, .of_db_eq hdb, trivial⟩

theorem spelled_fresh (users : Table User) : Spelled (Store.fresh users) where
  name _ hf := absurd hf Table.not_mem_empty
  key _ hb := absurd hb List.not_mem_nil

theorem spelled_always (deps : Deps) (users : Table User) {c : Services}
    {sch : Machine.Schedule Store Request Reply Oracle EnvMove Stmt}
    (h : (services deps).Reaches sch (start (Store.fresh users)) c) (hc : ∀ st ∈ c.trace, Spells st) :
    WellFormed c.store ∧ Spelled c.store :=
  ((spelling_valid deps).good h (Outline.good_init ⟨wellFormed_fresh users, spelled_fresh users⟩)
    fun st hst => ⟨trivial, hc st hst⟩).1

/-- **Every task of the queue reads as it was enqueued**: in any interleaving of the services, what a
worker decodes are the id and the key of a file as it was born. -/
theorem payloads_arrive (deps : Deps) (users : Table User) {c : Services}
    (h : (services deps).Reaches Machine.anySchedule (start (Store.fresh users)) c)
    (hc : ∀ st ∈ c.trace, Spells st) {m : Message}
    (hm : m ∈ c.store.broker.waiting ∨ m ∈ c.store.broker.delivered) :
    Payload.unmarshal m.task.payload.marshal = some m.task.payload ∧
      ∃ b ∈ c.store.db.files.births, processingTask b = some m.task ∧
        m.task.payload = ⟨b.id, b.storageKey⟩ := by
  obtain ⟨hwf, hspelled⟩ := spelled_always deps users h hc
  have hknown : TaskKnown c.store m.task := hm.elim (hwf.waiting m) (hwf.delivered m)
  obtain ⟨b, hb, htask⟩ := hknown
  have hpayload : m.task.payload = ⟨b.id, b.storageKey⟩ := payload_processingTask htask
  refine ⟨?_, b, hb, htask, hpayload⟩
  rw [unmarshal_marshal, hpayload, hspelled.key b hb]

/-! ### A picture -/

def pngBody : GoString :=
  lit "\x7b\"name\":\"a.png\",\"size_bytes\":3,\"mime_type\":\"image/png\"\x7d"

theorem decodePresign_pngBody :
    decodePresign pngBody = some ⟨lit "a.png", 3, lit "image/png", none⟩ := by
  have h : (decodePresign pngBody).map (fun r => (r.name, r.sizeBytes, r.mimeType, r.folderID)) =
      some (lit "a.png", 3, lit "image/png", none) := by decide +kernel
  obtain ⟨⟨name, sizeBytes, mimeType, folderID⟩, hreq, hfields⟩ := Option.map_eq_some_iff.1 h
  obtain ⟨rfl, rfl, rfl, rfl⟩ : name = _ ∧ sizeBytes = _ ∧ mimeType = _ ∧ folderID = _ := by
    simpa using hfields
  exact hreq

/-- The step names no file, or that picture. -/
def namesPicture : ServiceStep → Bool
  | .start _ (.presign _ (some req)) => req.name = lit "a.png" && req.sizeBytes = 3 &&
      req.mimeType = lit "image/png" && req.folderID = none
  | .start _ (.updateFile _ _ (some _)) => false
  | .call _ _ _ (.bucket (.putObject _ _ _ _)) _ => false
  | _ => true

theorem spells_of_namesPicture {st : ServiceStep} (h : namesPicture st = true) : Spells st := by
  cases st with
  | start s q =>
    cases q with
    | presign userID body =>
      match body with
      | none => trivial
      | some ⟨name, sizeBytes, mimeType, folderID⟩ =>
        simp only [namesPicture, Bool.and_eq_true, decide_eq_true_eq] at h
        obtain ⟨⟨⟨rfl, rfl⟩, rfl⟩, rfl⟩ := h
        exact ⟨pngBody, decodePresign_pngBody⟩
    | updateFile userID id body =>
      cases body with
      | none => trivial
      | some req => cases h
    | _ => trivial
  | call s q o e a =>
    cases e with
    | bucket b =>
      cases b with
      | putObject key body size contentType => cases h
      | _ => trivial
    | _ => trivial
  | env s v => trivial

/-- Alice uploads a picture, and its task is in the queue. -/
theorem payloads_arrive_png : ∃ c : Services,
    (services plainDeps).Reaches Machine.anySchedule (start (Store.fresh aliceOnly)) c ∧
    ∃ m ∈ c.store.broker.waiting, Payload.unmarshal m.task.payload.marshal = some m.task.payload := by
  obtain ⟨c, hr, hP⟩ := exists_run Machine.anySchedule uploadImage
    (fun c => c.trace.all namesPicture && !c.store.broker.waiting.isEmpty) (by decide +kernel)
  rw [Bool.and_eq_true, List.all_eq_true] at hP
  obtain ⟨m, hm⟩ : ∃ m, m ∈ c.store.broker.waiting := by
    cases hw : c.store.broker.waiting with
    | nil => simp [hw] at hP
    | cons m rest => exact ⟨m, List.mem_cons_self⟩
  exact ⟨c, hr, m, hm, (payloads_arrive plainDeps aliceOnly hr
    (fun st hst => spells_of_namesPicture (hP.1 st hst)) (Or.inl hm)).1⟩

end Optiflow
