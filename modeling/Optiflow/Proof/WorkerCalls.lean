import Optiflow.Proof.Footprint
import Optiflow.Proof.ObjectKeys
import Optiflow.Proof.Playlists

/-!
# What the workers call

A delivery reads, runs tools, stores objects under keys of its file, updates the row of its file and
settles its message; it makes no other call.  `Stmt.works` says so, with the keys as a parameter.
-/

namespace Optiflow

open Interleave Code UploadSvc ApiSvc Workers

/-! ## The calls -/

/-- A worker's call for the file: it stores only under such keys. -/
def Stmt.works {α : Type} (id : UUID) (φ : GoString → Prop) : Stmt α → Prop
  | .write (.updateFile id' _) => id' = id
  | .write _ => False
  | .bucket (.putObject key _ _ _) => φ key
  | .bucket (.presignedPutURL _ _) => False
  | .bucket (.removeObject _) => False
  | .staging _ => False
  | .newUUID => False
  | _ => True

/-- The names that a transcode gives to what it stores. -/
inductive AssetName : GoString → Prop
  | poster : AssetName (lit "poster.jpg")
  | master : AssetName (lit "master.m3u8")
  | playlist {r : Rendition} : r.name = decimal r.height ++ lit "p" →
      AssetName (r.name ++ lit ".m3u8")
  | segment {r : Rendition} (i : ℕ) : r.name = decimal r.height ++ lit "p" →
      AssetName (r.name ++ lit "_" ++ decimal3 i ++ lit ".ts")

/-- The key is one that a transcode of the file stores something under. -/
def TranscodeKey (id : UUID) (key : GoString) : Prop :=
  ∃ name, AssetName name ∧ key = hlsPrefix id ++ name

/-- A program that makes such calls only. -/
abbrev Works (id : UUID) (φ : GoString → Prop) (p : Prog Stmt Reply) : Prop := p.Makes (Stmt.works id φ)

variable {tools : Tools} {id : UUID} {φ : GoString → Prop} {α : Type}

theorem Stmt.looks.works {e : Stmt α} (h : e.looks) : e.works id φ := by
  cases e with
  | bucket b =>
    cases b with
    | putObject key body size contentType => cases h
    | presignedPutURL key expiry => cases h
    | removeObject key => cases h
    | _ => trivial
  | write w => exact h.elim
  | staging st => exact h.elim
  | newUUID => exact h.elim
  | _ => trivial

/-- Code that only looks. -/
theorem works_looks {c : Handler α} (h : Looks c) {k : α → Prog Stmt Reply}
    (hk : ∀ a, Works id φ (k a)) : Works id φ (c k) :=
  (h.mono (fun _ he => he.works) fun _ hr => hr).makes hk

/-! ## The pieces of a transcode -/

theorem works_uploadFile {key contentType : GoString} {body : Bytes} {k : Bool → Prog Stmt Reply}
    (hkey : φ key) (h : ∀ a, Works id φ (k a)) : Works id φ (uploadFile key body contentType k) := by
  refine ⟨trivial, fun ok => ?_⟩
  cases ok with
  | false => exact h false
  | true => exact ⟨hkey, h⟩

theorem works_uploadEntries {directory : GoString} {entries : List (GoString × Bytes)}
    {k : Bool → Prog Stmt Reply} (hentries : ∀ e ∈ entries, φ (directory ++ lit "/" ++ e.1))
    (h : ∀ a, Works id φ (k a)) : Works id φ (uploadEntries directory entries k) := by
  induction entries with
  | nil => exact h true
  | cons entry entries ih =>
    refine works_uploadFile (hentries entry List.mem_cons_self) fun stored => ?_
    cases stored with
    | false => exact h false
    | true => exact ih fun e he => hentries e (List.mem_cons_of_mem _ he)

theorem works_uploadRenditionFiles {directory : GoString} {files : List (GoString × Bytes)}
    {k : Bool → Prog Stmt Reply} (hfiles : ∀ e ∈ files, φ (directory ++ lit "/" ++ e.1))
    (h : ∀ a, Works id φ (k a)) : Works id φ (uploadRenditionFiles files directory k) := by
  refine ⟨trivial, fun ok => ?_⟩
  cases ok with
  | false => exact h false
  | true => exact works_uploadEntries (fun e he => hfiles e ((List.mem_insertionSort _).1 he)) h

theorem assetName_of_mem_renditionFiles {r : Rendition} (hr : r.name = decimal r.height ++ lit "p")
    {playlist : Bytes} {segments : List Bytes} :
    ∀ e ∈ renditionFiles r playlist segments, AssetName e.1 := by
  intro e he
  rcases List.mem_cons.1 he with rfl | he
  · exact .playlist hr
  · obtain ⟨i, hi, rfl⟩ := List.mem_mapIdx.1 he
    exact .segment i hr

theorem works_transcodeRenditions {rs : List Rendition}
    {k : Option (List (GoString × Bytes)) → Prog Stmt Reply}
    (hrs : ∀ r ∈ rs, r.name = decimal r.height ++ lit "p") (hnone : Works id φ (k none))
    (h : ∀ files, (∀ e ∈ files, AssetName e.1) → Works id φ (k (some files))) :
    Works id φ (transcodeRenditions rs k) := by
  induction rs generalizing k with
  | nil => exact h [] fun _ he => absurd he List.not_mem_nil
  | cons r rs ih =>
    refine ⟨trivial, fun encoded => ?_⟩
    cases encoded with
    | none => exact hnone
    | some out =>
      refine ih (fun r' hr' => hrs r' (List.mem_cons_of_mem _ hr')) hnone fun files hfiles => ?_
      refine h _ fun e he => ?_
      rcases List.mem_append.1 he with he | he
      · exact assetName_of_mem_renditionFiles (hrs r List.mem_cons_self) e he
      · exact hfiles e he

variable {payload : Payload} {k : Option TaskError → Prog Stmt Reply}

theorem works_publish {poster master : Bytes} {files : List (GoString × Bytes)}
    (hfiles : ∀ e ∈ files, AssetName e.1)
    (h : ∀ a, Works payload.fileID (TranscodeKey payload.fileID) (k a)) :
    Works payload.fileID (TranscodeKey payload.fileID) (publish tools payload poster files master k) := by
  refine works_uploadFile ⟨_, .poster, posterKey_eq⟩ fun stored => ?_
  cases stored with
  | false => exact h _
  | true =>
    refine works_uploadRenditionFiles (fun e he => ⟨e.1, hfiles e he, rfl⟩) fun stored => ?_
    cases stored with
    | false => exact h _
    | true =>
      refine ⟨⟨_, .master, masterKey_eq⟩, fun stored => ?_⟩
      cases stored with
      | false => exact h _
      | true =>
        refine ⟨rfl, fun a => ?_⟩
        cases a with
        | error e => exact h _
        | ok _ => exact works_looks (looks_notifyUser _ _ _ _) fun _ => h _

theorem works_transcode (h : ∀ a, Works payload.fileID (TranscodeKey payload.fileID) (k a)) :
    Works payload.fileID (TranscodeKey payload.fileID) (transcode tools payload k) := by
  refine ⟨trivial, fun ok => ?_⟩
  cases ok with
  | false => exact h _
  | true =>
    refine works_looks (looks_downloadOriginal _) fun input => ?_
    cases input with
    | error message => exact h _
    | ok input =>
      refine works_looks (looks_probeDimensions _ _) fun dimensions => ?_
      cases dimensions with
      | none => exact h _
      | some dimensions =>
        refine works_looks (looks_probeDuration _ _) fun ok => ?_
        cases ok with
        | false => exact h _
        | true =>
          refine ⟨trivial, fun ok => ?_⟩
          cases ok with
          | false => exact h _
          | true =>
            refine ⟨trivial, fun poster => ?_⟩
            cases poster with
            | none => exact h _
            | some poster =>
              exact works_transcodeRenditions (fun r hr => name_of_mem_selectRenditions hr) (h _)
                fun files hfiles => works_publish hfiles h

/-! ## A thumbnail -/

/-- The image worker stores a thumbnail, and nothing else. -/
theorem works_handleImageThumbnail
    (h : ∀ a, Works payload.fileID (· = thumbnailKey payload.fileID) (k a)) :
    Works payload.fileID (· = thumbnailKey payload.fileID) (handleImageThumbnail tools payload k) := by
  refine ⟨trivial, fun opened => ?_⟩
  cases opened with
  | false => exact h _
  | true =>
    refine ⟨trivial, fun original => ?_⟩
    cases original with
    | none => exact h _
    | some original =>
      refine thumbnail_cases (P := fun p => p.Makes _) (fun _ => ?_) (fun _ => ?_) fun body _ => ?_
      · exact h _
      · exact h _
      · refine ⟨rfl, fun stored => ?_⟩
        cases stored with
        | false => exact h _
        | true =>
          refine ⟨rfl, fun a => ?_⟩
          cases a with
          | error e => exact h _
          | ok _ => exact works_looks (looks_notifyUser _ _ _ _) fun _ => h _

/-! ## Deliveries -/

section Deliveries

variable {worker : Worker} {msg : Message}

/-- A delivery makes the calls of its handler, and settles the message. -/
theorem works_deliver (hid : msg.task.payload.fileID = id)
    (h : msg.task.type = worker.handles → ∀ k : Option TaskError → Prog Stmt Reply,
      (∀ a, Works id φ (k a)) → Works id φ (processTask tools worker msg.task k)) :
    Works id φ (deliver tools worker msg .ret) := by
  have rest : ∀ err, Works id φ ((match err with
      | none => pure (.processed none)
      | some err => do
        handleTaskError tools worker msg err
        settle msg err
        return .processed (some err) : Handler Reply) .ret) := by
    intro err
    cases err with
    | none => trivial
    | some err =>
      have settles : ∀ u : Unit, Works id φ (settle msg err fun _ => .ret (.processed (some err))) := by
        intro u
        unfold settle
        rw [Code.ite_run]
        split
        · exact ⟨trivial, fun _ => trivial⟩
        · exact ⟨trivial, fun _ => trivial⟩
      show (handleTaskError tools worker msg err _).Makes _
      unfold handleTaskError
      rw [Code.ite_run]
      split
      · rw [Code.ite_run]
        split
        · exact ⟨hid, fun _ => works_looks (looks_notifyUser _ _ _ _) settles⟩
        · exact settles ()
      · exact settles ()
  by_cases htype : msg.task.type = worker.handles
  · exact h htype _ rest
  · show (processTask tools worker msg.task _).Makes _
    unfold processTask
    rw [Code.ite_run, if_neg htype]
    exact rest (retryable "handler not found for task")

/-- **What the video worker stores** has one of the file's keys. -/
theorem works_deliver_video : Works msg.task.payload.fileID (TranscodeKey msg.task.payload.fileID)
    (deliver tools .video msg .ret) := by
  refine works_deliver rfl fun htype k hk => ?_
  unfold processTask
  rw [Code.ite_run, if_pos htype]
  exact works_transcode hk

theorem works_deliver_image : Works msg.task.payload.fileID
    (· = thumbnailKey msg.task.payload.fileID) (deliver tools .image msg .ret) := by
  refine works_deliver rfl fun htype k hk => ?_
  unfold processTask
  rw [Code.ite_run, if_pos htype]
  exact works_handleImageThumbnail hk

end Deliveries

end Optiflow
