import Optiflow.Proof.Finished
import Optiflow.Proof.WorkerCalls

/-!
# Failures that pass

asynq delivers a task again after an error, until the retries are used up or the error wraps `SkipRetry`.
A delivery reads the original once.  When that read breaks off, the video worker returns an ordinary
error; the image worker decodes straight from the object it has opened and takes the failure for that of
a broken image.  No other failure of the storage or the database is final (`failures_retried_iff`).
-/

namespace Optiflow

open Interleave Code UploadSvc ApiSvc Workers

/-! ## The attempts at a task -/

/-- What a step reads from the bucket; `none` when the read fails. -/
def bodyRead : ServiceStep → Option (Option Bytes)
  | .call s _ o (.bucket (.readObject key)) _ => some (if o.fails then none else s.bucket.object? key)
  | _ => none

/-- ffprobe runs on what has been downloaded. -/
def probesRun : ServiceStep → Bool
  | .call _ _ o (.tool (.system what)) _ =>
    !o.fails || (what ≠ "ffprobe dimensions" && what ≠ "ffprobe duration")
  | _ => true

/-- There is a row of the file. -/
def Store.hasFile (s : Store) (id : UUID) : Prop := ∃ f ∈ s.db.files, f.id = id

/-- The original of a task is as it was and its row is still there, whatever else has changed. -/
structure Undisturbed (payload : Payload) (s t : Store) : Prop where
  original : t.bucket.object? payload.storageKey = s.bucket.object? payload.storageKey
  row : s.hasFile payload.fileID → t.hasFile payload.fileID

/-- One delivery of a task: its steps, and the error it ends with. -/
structure Attempt where
  trace : List ServiceStep
  err : Option TaskError

def Attempt.failed (a : Attempt) : Bool := a.err.isSome

/-- The deliveries that begin with the message, until no retry waits any more. -/
inductive Attempts (deps : Deps) (worker : Worker) : Message → Store → List Attempt → Store → Prop
  | ends {msg : Message} {s s' t : Store} {tr : List ServiceStep} {err : Option TaskError} :
      (Request.deliver worker msg).launch s = some s' →
      (services deps).Finishes (.deliver worker msg) (deliver deps.tools worker msg .ret) s' tr
        (.processed err) t →
      (err.isSome = true → { msg with retried := msg.retried + 1 } ∉ t.broker.waiting) →
      Attempts deps worker msg s [⟨tr, err⟩] t
  | again {msg : Message} {s s' t u v : Store} {tr : List ServiceStep} {e : TaskError}
      {attempts : List Attempt} : (Request.deliver worker msg).launch s = some s' →
      (services deps).Finishes (.deliver worker msg) (deliver deps.tools worker msg .ret) s' tr
        (.processed (some e)) t →
      Undisturbed msg.task.payload t u →
      Attempts deps worker { msg with retried := msg.retried + 1 } u attempts v →
      Attempts deps worker msg s (⟨tr, some e⟩ :: attempts) v

/-! ## The property -/

/-- `imaging.Decode` takes the body for an image; ffprobe takes it for a video. -/
def Workers.Tools.accepts (tools : Tools) : TaskType → Bytes → Bool
  | .imageThumbnail, body =>
    match tools.thumbnail body with
    | .undecodable => false
    | _ => true
  | .videoTranscode, body => (tools.probeDimensions body).isSome && tools.probeDuration body

/-- The file of the task is there, and its object is an image or a video. -/
structure Processable (tools : Tools) (task : Task) (s : Store) : Prop where
  key : ∃ userID name, task.payload.storageKey = storageKey userID task.payload.fileID name
  source : ∃ body, s.bucket.object? task.payload.storageKey = some body ∧
    tools.accepts task.type body = true
  row : s.hasFile task.payload.fileID

/-- The row is ready, and has the keys of what the task makes. -/
def Processed (task : Task) (s : Store) : Prop :=
  ∃ f ∈ s.db.files, f.id = task.payload.fileID ∧ f.status = .ready ∧
    match task.type with
    | .imageThumbnail => f.thumbnailKey = some (thumbnailKey f.id)
    | .videoTranscode => f.thumbnailKey = some (posterKey f.id) ∧ f.playlistKey = some (masterKey f.id)

/-- **Failures are retried, not fatal**: the task succeeds unless more attempts fail than there are
retries, and an attempt gives the task up only for what it has read to the end. -/
structure RetriedNotFatal (tools : Tools) (task : Task) (s : Store) (attempts : List Attempt)
    (t : Store) : Prop where
  ready : Processable tools task s → attempts.countP Attempt.failed ≤ task.maxRetry →
    Processed task t
  skips : ∀ a ∈ attempts, ∀ e, a.err = some e → e.skipRetry = true →
    ∃ st ∈ a.trace, ∃ body, bodyRead st = some (some body) ∧ tools.accepts task.type body = false

/-! ## What the attempts leave alone -/

theorem Undisturbed.refl (payload : Payload) (s : Store) : Undisturbed payload s s := ⟨rfl, id⟩

theorem Undisturbed.trans {payload : Payload} {s t u : Store} (h : Undisturbed payload s t)
    (h' : Undisturbed payload t u) : Undisturbed payload s u :=
  ⟨h'.original.trans h.original, fun hrow => h'.row (h.row hrow)⟩

theorem Undisturbed.of_eq {payload : Payload} {s t : Store} (hdb : t.db = s.db)
    (hbucket : t.bucket = s.bucket) : Undisturbed payload s t :=
  ⟨by rw [hbucket], fun ⟨f, hf, hid⟩ => ⟨f, hdb ▸ hf, hid⟩⟩

theorem Processable.mono {tools : Tools} {task : Task} {s t : Store} (h : Processable tools task s)
    (hst : Undisturbed task.payload s t) : Processable tools task t := by
  obtain ⟨body, hbody, haccepts⟩ := h.source
  exact ⟨h.key, ⟨body, hst.original.trans hbody, haccepts⟩, hst.row h.row⟩

/-- What a worker stores has another key, and an update drops no row. -/
theorem undisturbed_exec {payload : Payload} {φ : GoString → Prop} {α : Type} {e : Stmt α} {o : Oracle}
    {a : α} {s s' : Store} (he : e.works payload.fileID φ) (hφ : ¬φ payload.storageKey)
    (hx : exec o e s = some (a, s')) : Undisturbed payload s s' := by
  cases e with
  | query qy =>
    obtain ⟨-, rfl⟩ := exec_query hx
    exact .refl payload _
  | write w =>
    obtain ⟨db', hrun, rfl⟩ := exec_write hx
    cases w with
    | updateFile id u =>
      refine ⟨rfl, fun ⟨f, hf, hid⟩ => ?_⟩
      obtain ⟨g, hg, hgf⟩ := Write.keeps_ids rfl hrun hf
      exact ⟨g, hg, hgf.trans hid⟩
    | _ => exact he.elim
  | bucket b =>
    obtain ⟨-, rfl⟩ := Prod.mk.inj (Option.some.inj hx)
    cases b with
    | putObject key body size contentType =>
      refine ⟨?_, id⟩
      simp only [BucketStmt.run]
      split
      · rfl
      · exact Bucket.object?_put_ne fun heq => hφ (heq ▸ he)
    | presignedPutURL key expiry => exact he.elim
    | removeObject key => exact he.elim
    | _ => exact .refl payload _
  | broker b =>
    obtain ⟨-, rfl⟩ := Prod.mk.inj (Option.some.inj hx)
    exact .of_eq rfl rfl
  | tool t =>
    obtain ⟨-, rfl⟩ := Prod.mk.inj (Option.some.inj hx)
    exact .refl payload _
  | now =>
    obtain ⟨-, rfl⟩ := Prod.mk.inj (Option.some.inj hx)
    exact .refl payload _
  | _ => exact he.elim

section Deliveries

variable {deps : Deps} {worker : Worker} {msg : Message} {q : Request} {s t : Store}
  {tr : List ServiceStep} {r : Reply}

theorem undisturbed_launch (h : (Request.deliver worker msg).launch s = some t) (payload : Payload) :
    Undisturbed payload s t :=
  .of_eq (launch_cases h).1 (launch_cases h).2.1

/-- A delivery leaves the original alone. -/
theorem undisturbed_deliver
    (hkey : ∃ userID name, msg.task.payload.storageKey = storageKey userID msg.task.payload.fileID name)
    (hf : (services deps).Finishes q (deliver deps.tools worker msg .ret) s tr r t) :
    Undisturbed msg.task.payload s t := by
  have related : ∀ φ, Works msg.task.payload.fileID φ (deliver deps.tools worker msg .ret) →
      ¬φ msg.task.payload.storageKey → Undisturbed msg.task.payload s t := fun φ hworks hφ =>
    hf.related (Machine.meets_of_makes hworks) (Undisturbed.refl _) Undisturbed.trans
      fun he hx => undisturbed_exec he hφ hx
  obtain ⟨userID, name, hkey⟩ := hkey
  cases worker with
  | image =>
    refine related _ works_deliver_image ?_
    rw [hkey]
    exact storageKey_ne_thumbnailKey
  | video =>
    refine related _ works_deliver_video ?_
    rw [hkey]
    rintro ⟨asset, -, heq⟩
    exact not_hlsPrefix_storageKey ⟨asset, heq.symm⟩

end Deliveries

/-! ## What an attempt reads -/

section Reading

variable {deps : Deps} {q : Request} {s : Store} {α : Type}
  {Ψ : List (Option Bytes) → Reply → Store → Prop}

/-- Every run of the program alone in which ffprobe runs ends in `Ψ`, which is told what was read. -/
abbrev Reading (deps : Deps) (q : Request) (p : Prog Stmt Reply) (s : Store)
    (Ψ : List (Option Bytes) → Reply → Store → Prop) : Prop :=
  (services deps).Ends (fun st => probesRun st = true) q p s fun tr => Ψ (tr.filterMap bodyRead)

/-- A call that reads nothing from the bucket. -/
theorem reading_call {e : Stmt α} {k : α → Prog Stmt Reply}
    (he : ∀ o a, bodyRead (.call s q o e a) = none)
    (h : ∀ o a t, probesRun (.call s q o e a) = true → exec o e s = some (a, t) →
      Reading deps q (k a) t Ψ) : Reading deps q ((Code.call e : Handler α) k) s Ψ := by
  intro o a t hC hx
  rw [services_exec] at hx
  refine (h o a t hC hx).mono fun tr r u hΨ => ?_
  show Ψ (List.filterMap bodyRead (_ :: tr)) r u
  rwa [List.filterMap_cons_none (he o a)]

/-- The answer of a read is what it has read. -/
theorem reading_readObject {key : GoString} {k : Option Bytes → Prog Stmt Reply}
    (h : ∀ a, (∀ body, a = some body → s.bucket.object? key = some body) →
      Reading deps q (k a) s fun bodies => Ψ (a :: bodies)) :
    Reading deps q (bucket (.readObject key) k) s Ψ := by
  intro o a t _ hx
  obtain ⟨rfl, rfl⟩ := Prod.mk.inj (Option.some.inj hx)
  refine (h _ fun body hbody => ?_).mono fun tr r u hΨ => hΨ
  simp only [BucketStmt.run] at hbody
  split at hbody
  · cases hbody
  · exact hbody

theorem reading_getObject {key : GoString} {k : Bool → Prog Stmt Reply}
    (h : ∀ a, Reading deps q (k a) s Ψ) : Reading deps q (bucket (.getObject key) k) s Ψ := by
  refine reading_call (fun _ _ => rfl) fun o a t _ hx => ?_
  obtain ⟨-, rfl⟩ := Prod.mk.inj (Option.some.inj hx)
  exact h a

theorem reading_tool {tl : ToolStmt α} {k : α → Prog Stmt Reply}
    (h : ∀ o, probesRun (.call s q o (.tool tl) (tl.run o)) = true →
      Reading deps q (k (tl.run o)) s Ψ) : Reading deps q (tool tl k) s Ψ := by
  refine reading_call (fun _ _ => rfl) fun o a t hC hx => ?_
  obtain ⟨rfl, rfl⟩ := Prod.mk.inj (Option.some.inj hx)
  exact h o hC

theorem reading_updateFile {id : UUID} {u : FileUpdates} {k : Except DbError Unit → Prog Stmt Reply}
    (herr : Reading deps q (k (.error .other)) s Ψ)
    (hok : Reading deps q (k (.ok ())) { s with db := s.db.updateFile id u } Ψ) :
    Reading deps q (write (.updateFile id u) k) s Ψ := by
  refine reading_call (fun _ _ => rfl) fun o a t _ hx => ?_
  obtain ⟨db', hrun, rfl⟩ := exec_write hx
  obtain ⟨rfl, rfl⟩ | ⟨rfl, rfl⟩ := Write.updateFile_cases hrun
  · exact herr
  · exact hok

theorem reading_notifyUser {tools : Tools} {id : UUID} {title messageFmt : GoString}
    {k : Unit → Prog Stmt Reply} (h : Reading deps q (k ()) s Ψ) :
    Reading deps q (notifyUser tools id title messageFmt k) s Ψ := by
  unfold notifyUser
  rw [Code.ite_run]
  split
  · refine reading_call (fun _ _ => rfl) fun o a t _ hx => ?_
    obtain ⟨-, rfl⟩ := exec_query hx
    cases a with
    | error e => exact h
    | ok file => exact reading_tool fun _ _ => h
  · exact h

/-- Running tools and storing objects, whatever fails of it, keeps the database. -/
theorem reading_publishes (c : Handler α) (hc : c.Over Stmt.publishes fun _ => False)
    {k : α → Prog Stmt Reply} (h : ∀ a (t : Store), t.db = s.db → Reading deps q (k a) t Ψ) :
    Reading deps q (c k) s Ψ := by
  refine hc (fun p => ∀ t : Store, t.db = s.db → Reading deps q p t Ψ) (fun e k he hk t ht => ?_)
    (fun _ hr => hr.elim) k h s rfl
  refine reading_call (fun o a => ?_) fun o a t' _ hx =>
    hk a t' ((exec_db he.plain.isWrite hx).trans ht)
  cases e with
  | bucket b =>
    cases b with
    | putObject key body size contentType => rfl
    | _ => exact he.elim
  | _ => rfl

theorem reading_putObject {key contentType : GoString} {body : Bytes} {size : Int64}
    {k : Bool → Prog Stmt Reply}
    (h : ∀ a (t : Store), t.db = s.db → Reading deps q (k a) t Ψ) :
    Reading deps q (bucket (.putObject key body size contentType) k) s Ψ :=
  reading_publishes (bucket (.putObject key body size contentType)) (over_call trivial) h

theorem reading_downloadOriginal {key : GoString} {k : Except String Bytes → Prog Stmt Reply}
    (hfailed : ∀ message, Reading deps q (k (.error message)) s Ψ)
    (hnone : Reading deps q (k (.error "downloading original object")) s
      fun bodies => Ψ (none :: bodies))
    (hsome : ∀ body, s.bucket.object? key = some body →
      Reading deps q (k (.ok body)) s fun bodies => Ψ (some body :: bodies)) :
    Reading deps q (downloadOriginal key k) s Ψ := by
  refine reading_getObject fun opened => ?_
  cases opened with
  | false => exact hfailed _
  | true =>
    refine reading_tool fun o _ => ?_
    cases (ToolStmt.system "create temp file").run o with
    | false => exact hfailed _
    | true =>
      refine reading_readObject fun a ha => ?_
      cases a with
      | none => exact hnone
      | some body => exact hsome body (ha body rfl)

theorem reading_probeDimensions {tools : Tools} {input : Bytes} {k : Option (ℤ × ℤ) → Prog Stmt Reply}
    (h : Reading deps q (k (tools.probeDimensions input)) s Ψ) :
    Reading deps q (Workers.probeDimensions tools input k) s Ψ := by
  refine reading_tool fun o hC => ?_
  have ho : o.fails = false := by simpa [probesRun] using hC
  rw [ToolStmt.run, ho]
  exact h

theorem reading_probeDuration {tools : Tools} {input : Bytes} {k : Bool → Prog Stmt Reply}
    (h : Reading deps q (k (tools.probeDuration input)) s Ψ) :
    Reading deps q (Workers.probeDuration tools input k) s Ψ := by
  refine reading_tool fun o hC => ?_
  have ho : o.fails = false := by simpa [probesRun] using hC
  rw [ToolStmt.run, ho]
  exact h

section Transcode

variable {payload : Payload} {k : Option TaskError → Prog Stmt Reply}

theorem reading_publish {tools : Tools} {poster master : Bytes} {files : List (GoString × Bytes)}
    (hfailed : ∀ message t, Reading deps q (k (retryable message)) t Ψ)
    (hdone : ∀ t : Store, t.db = s.db → Reading deps q (k none)
      { t with db := t.db.updateFile payload.fileID (transcodeUpdates payload.fileID) } Ψ) :
    Reading deps q (publish tools payload poster files master k) s Ψ := by
  refine reading_publishes (uploadFile _ _ _) (publishes_uploadFile _ _ _) fun stored t ht => ?_
  cases stored with
  | false => exact hfailed _ t
  | true =>
    refine reading_publishes (uploadRenditionFiles _ _) (publishes_uploadRenditionFiles _ _)
      fun stored u hu => ?_
    cases stored with
    | false => exact hfailed _ u
    | true =>
      refine reading_putObject fun stored v hv => ?_
      cases stored with
      | false => exact hfailed _ v
      | true =>
        refine reading_updateFile (hfailed _ v) (reading_notifyUser ?_)
        exact hdone v (hv.trans (hu.trans ht))

theorem reading_encode {tools : Tools} {srcWidth srcHeight : ℤ}
    (hfailed : ∀ message t, Reading deps q (k (retryable message)) t Ψ)
    (hdone : ∀ t : Store, t.db = s.db → Reading deps q (k none)
      { t with db := t.db.updateFile payload.fileID (transcodeUpdates payload.fileID) } Ψ) :
    Reading deps q (encode tools payload srcWidth srcHeight k) s Ψ := by
  refine reading_tool fun o _ => ?_
  cases (ToolStmt.system "create output dir").run o with
  | false => exact hfailed _ s
  | true =>
    refine reading_tool fun o _ => ?_
    cases ToolStmt.extractPoster.run o with
    | none => exact hfailed _ s
    | some poster =>
      refine reading_publishes (transcodeRenditions _) (over_transcodeRenditions (fun _ => trivial) _)
        fun files t ht => ?_
      cases files with
      | none => exact hfailed _ t
      | some files => exact reading_publish hfailed fun u hu => hdone u (hu.trans ht)

end Transcode

end Reading

/-! ## What an attempt comes to -/

/-- The worker gives up after this read.  Only the image worker does so when the read has failed. -/
def Workers.Tools.rejects (tools : Tools) : TaskType → Option Bytes → Bool
  | .imageThumbnail, none => true
  | .videoTranscode, none => false
  | type, some body => !tools.accepts type body

@[simp] theorem Workers.Tools.rejects_some (tools : Tools) (type : TaskType) (body : Bytes) :
    tools.rejects type (some body) = !tools.accepts type body := by
  cases type <;> rfl

/-- What was read from `s`, the error and the store that the handler of a task may come to. -/
structure Handled (tools : Tools) (task : Task) (s : Store) (bodies : List (Option Bytes))
    (err : Option TaskError) (t : Store) : Prop where
  once : ∀ a ∈ bodies, bodies = [a]
  original : ∀ body, some body ∈ bodies → s.bucket.object? task.payload.storageKey = some body
  skips : err.any TaskError.skipRetry = bodies.any (tools.rejects task.type)
  ready : err = none → s.hasFile task.payload.fileID → Processed task t

section Handlers

variable {deps : Deps} {q : Request} {task : Task} {s t : Store}
  {Ψ : List (Option Bytes) → Reply → Store → Prop} {k : Option TaskError → Prog Stmt Reply}

/-- The row after the update of a finished task. -/
theorem processed_updateFile (h : t.hasFile task.payload.fileID) :
    Processed task { t with db := t.db.updateFile task.payload.fileID (finishedUpdates task) } := by
  obtain ⟨f, hf, hid⟩ := h
  refine ⟨(finishedUpdates task).apply f, DB.mem_updateFile.2 ⟨f, hf, by rw [if_pos hid]⟩, hid, ?_⟩
  unfold finishedUpdates
  cases task.type with
  | imageThumbnail => exact ⟨rfl, hid ▸ rfl⟩
  | videoTranscode => exact ⟨rfl, hid ▸ rfl, hid ▸ rfl⟩

/-- An error before the original is read. -/
theorem handled_unread (message : String) :
    Handled deps.tools task s [] (retryable message) t :=
  ⟨fun _ h => absurd h List.not_mem_nil, fun _ h => absurd h List.not_mem_nil, rfl, fun h => by cases h⟩

theorem handled_read {a : Option Bytes} {e : TaskError}
    (ha : ∀ body, a = some body → s.bucket.object? task.payload.storageKey = some body)
    (hskip : e.skipRetry = deps.tools.rejects task.type a) :
    Handled deps.tools task s [a] (some e) t := by
  refine ⟨fun b hb => ?_, fun body hbody => ha body (List.mem_singleton.1 hbody).symm, ?_, fun h => ?_⟩
  · rw [List.mem_singleton.1 hb]
  · simpa using hskip
  · cases h

/-- A finished task. -/
theorem handled_finished {body : Bytes} (ha : s.bucket.object? task.payload.storageKey = some body)
    (haccepts : deps.tools.accepts task.type body = true) (ht : t.db = s.db) :
    Handled deps.tools task s [some body] none
      { t with db := t.db.updateFile task.payload.fileID (finishedUpdates task) } := by
  refine ⟨fun b hb => ?_, fun body' hbody' => ?_, ?_, fun _ hrow => processed_updateFile ?_⟩
  · rw [List.mem_singleton.1 hb]
  · obtain rfl := Option.some.inj (List.mem_singleton.1 hbody')
    exact ha
  · simp [haccepts]
  · rwa [Store.hasFile, ht]

/-- The image worker takes a failed read for a broken image. -/
theorem reading_handleImageThumbnail (htype : task.type = .imageThumbnail)
    (h : ∀ bodies err t, Handled deps.tools task s bodies err t →
      Reading deps q (k err) t fun rest => Ψ (bodies ++ rest)) :
    Reading deps q (handleImageThumbnail deps.tools task.payload k) s Ψ := by
  have hupdates : finishedUpdates task = thumbnailUpdates task.payload.fileID := by
    rw [finishedUpdates, htype]
  refine reading_getObject fun opened => ?_
  cases opened with
  | false => exact h [] _ s (handled_unread _)
  | true =>
    refine reading_readObject fun a ha => ?_
    cases a with
    | none =>
      refine h [none] _ s (handled_read ha ?_)
      rw [htype]
      rfl
    | some original =>
      refine thumbnail_cases (P := fun p => Reading deps q p s _) (fun hthumb => ?_) (fun hthumb => ?_)
        fun body hthumb => ?_
      · refine h [some original] _ s (handled_read ha ?_)
        simp [htype, Workers.Tools.accepts, hthumb]
      · refine h [some original] _ s (handled_read ha ?_)
        simp [htype, Workers.Tools.accepts, hthumb]
      · have haccepts : deps.tools.accepts task.type original = true := by
          simp [htype, Workers.Tools.accepts, hthumb]
        have failed : ∀ message t, Handled deps.tools task s [some original] (retryable message) t :=
          fun message t => handled_read ha (by simp [haccepts])
        refine reading_putObject fun stored t ht => ?_
        cases stored with
        | false => exact h _ _ t (failed _ t)
        | true =>
          refine reading_updateFile (h _ _ t (failed _ t)) (reading_notifyUser ?_)
          rw [← hupdates]
          exact h _ none _ (handled_finished (ha original rfl) haccepts ht)

/-- The video worker takes it for what it is. -/
theorem reading_transcode (htype : task.type = .videoTranscode)
    (h : ∀ bodies err t, Handled deps.tools task s bodies err t →
      Reading deps q (k err) t fun rest => Ψ (bodies ++ rest)) :
    Reading deps q (transcode deps.tools task.payload k) s Ψ := by
  have hupdates : finishedUpdates task = transcodeUpdates task.payload.fileID := by
    rw [finishedUpdates, htype]
  refine reading_tool fun o _ => ?_
  cases (ToolStmt.system "create temp dir").run o with
  | false => exact h [] _ s (handled_unread _)
  | true =>
    refine reading_downloadOriginal (fun _ => h [] _ s (handled_unread _)) ?_
      fun original horiginal => ?_
    · refine h [none] _ s (handled_read (fun _ ha => by cases ha) ?_)
      rw [htype]
      rfl
    · have ha : ∀ body, some original = some body →
          s.bucket.object? task.payload.storageKey = some body := fun body ha => ha ▸ horiginal
      refine reading_probeDimensions ?_
      cases hdimensions : deps.tools.probeDimensions original with
      | none =>
        refine h [some original] _ s (handled_read ha ?_)
        simp [htype, Workers.Tools.accepts, hdimensions]
      | some dimensions =>
        refine reading_probeDuration ?_
        cases hduration : deps.tools.probeDuration original with
        | false =>
          refine h [some original] _ s (handled_read ha ?_)
          simp [htype, Workers.Tools.accepts, hduration]
        | true =>
          have haccepts : deps.tools.accepts task.type original = true := by
            simp [htype, Workers.Tools.accepts, hdimensions, hduration]
          refine reading_encode (fun message t => ?_) fun t ht => ?_
          · exact h [some original] _ t (handled_read ha (by simp [haccepts]))
          · rw [← hupdates]
            exact h [some original] none _ (handled_finished horiginal haccepts ht)

theorem reading_processTask {worker : Worker} (htype : task.type = worker.handles)
    (h : ∀ bodies err t, Handled deps.tools task s bodies err t →
      Reading deps q (k err) t fun rest => Ψ (bodies ++ rest)) :
    Reading deps q (processTask deps.tools worker task k) s Ψ := by
  unfold processTask
  rw [Code.ite_run, if_pos htype]
  cases worker with
  | image => exact reading_handleImageThumbnail htype h
  | video => exact reading_transcode htype h

end Handlers

/-! ## One attempt -/

/-- What an attempt comes to: after an error that is not final, a retry waits. -/
structure Attempted (tools : Tools) (msg : Message) (s : Store) (bodies : List (Option Bytes))
    (err : Option TaskError) (t : Store) : Prop extends Handled tools msg.task s bodies err t where
  waits : ∀ e, err = some e → terminal msg e = false →
    { msg with retried := msg.retried + 1 } ∈ t.broker.waiting

section OneAttempt

variable {deps : Deps} {q : Request} {worker : Worker} {msg : Message} {s t : Store}
  {tr : List ServiceStep} {err : Option TaskError} {Ψ : List (Option Bytes) → Reply → Store → Prop}

/-- What follows an error puts the message back, unless the error is final. -/
theorem reading_settled {tools : Tools} {e : TaskError}
    (h : ∀ t, (terminal msg e = false →
      { msg with retried := msg.retried + 1 } ∈ t.broker.waiting) → Ψ [] (.processed (some e)) t) :
    Reading deps q (handleTaskError tools worker msg e fun _ =>
      settle msg e fun _ => .ret (.processed (some e))) s Ψ := by
  have settles : ∀ t, Reading deps q (settle msg e fun _ => .ret (.processed (some e))) t Ψ := by
    intro t
    unfold settle
    rw [Code.ite_run]
    split
    · next hterm =>
      refine reading_call (fun _ _ => rfl) fun o a u _ hx => h u fun hn => ?_
      cases hterm.symm.trans hn
    · refine reading_call (fun _ _ => rfl) fun o a u _ hx => h u fun _ => ?_
      obtain ⟨-, rfl⟩ := Prod.mk.inj (Option.some.inj hx)
      exact List.mem_append_right _ (List.mem_singleton_self _)
  unfold handleTaskError
  rw [Code.ite_run]
  split
  · rw [Code.ite_run]
    split
    · exact reading_updateFile (reading_notifyUser (settles _)) (reading_notifyUser (settles _))
    · exact settles s
  · exact settles s

theorem reading_deliver (htype : msg.task.type = worker.handles) :
    Reading deps q (deliver deps.tools worker msg .ret) s fun bodies r t =>
      ∀ err, r = .processed err → Attempted deps.tools msg s bodies err t := by
  refine reading_processTask htype fun bodies err t hh => ?_
  cases err with
  | none =>
    rintro err ⟨⟩
    rw [List.filterMap_nil, List.append_nil]
    exact ⟨hh, fun _ h => by cases h⟩
  | some e =>
    refine reading_settled fun u hu err herr => ?_
    obtain rfl := Reply.processed.inj herr
    rw [List.append_nil]
    refine ⟨⟨hh.once, hh.original, hh.skips, fun h => by cases h⟩, fun e' he' => ?_⟩
    obtain rfl := Option.some.inj he'
    exact hu

/-- **What an attempt comes to.** -/
theorem attempted_of_finishes (htype : msg.task.type = worker.handles)
    (hf : (services deps).Finishes q (deliver deps.tools worker msg .ret) s tr (.processed err) t)
    (hprobes : ∀ st ∈ tr, probesRun st = true) :
    Attempted deps.tools msg s (tr.filterMap bodyRead) err t :=
  hf.of_ends (reading_deliver htype) hprobes err rfl

end OneAttempt

/-! ## All attempts -/

/-- Nothing is given up after a read, unless it fails in the image worker or its body is not accepted. -/
theorem Workers.Tools.rejects_eq_false {tools : Tools} {type : TaskType} {a : Option Bytes}
    (hnone : type = .imageThumbnail → a ≠ none)
    (hsome : ∀ body, a = some body → tools.accepts type body = true) :
    tools.rejects type a = false := by
  cases a with
  | none =>
    cases type with
    | imageThumbnail => exact absurd rfl (hnone rfl)
    | videoTranscode => rfl
  | some body => simp [hsome body rfl]

section AllAttempts

variable {deps : Deps} {worker : Worker} {msg : Message} {s t : Store} {attempts : List Attempt}

/-- No attempt gives up a source that is as it should be. -/
theorem Attempted.skipRetry_eq_false {tools : Tools} {bodies : List (Option Bytes)} {e : TaskError}
    (h : Attempted tools msg s bodies (some e) t) (hs : Processable tools msg.task s)
    (hread : msg.task.type = .imageThumbnail → none ∉ bodies) : e.skipRetry = false := by
  obtain ⟨source, hsource, haccepts⟩ := hs.source
  have hskips : bodies.any (tools.rejects msg.task.type) = false := by
    refine List.any_eq_false.2 fun a ha => ?_
    rw [Workers.Tools.rejects_eq_false (fun htype hnone => hread htype (hnone ▸ ha))
      fun body hbody => ?_]
    · exact Bool.false_ne_true
    · obtain rfl := Option.some.inj (hsource.symm.trans (h.original body (hbody ▸ ha)))
      exact haccepts
  exact h.skips.trans hskips

theorem Attempts.attempted (h : Attempts deps worker msg s attempts t)
    (htype : msg.task.type = worker.handles)
    (hprobes : ∀ a ∈ attempts, ∀ st ∈ a.trace, probesRun st = true) :
    ∀ a ∈ attempts, ∃ msg' s' t', msg'.task = msg.task ∧
      Attempted deps.tools msg' s' (a.trace.filterMap bodyRead) a.err t' := by
  induction h with
  | ends hl hf hend =>
    intro a ha
    obtain rfl := List.mem_singleton.1 ha
    exact ⟨_, _, _, rfl, attempted_of_finishes htype hf (hprobes _ List.mem_cons_self)⟩
  | again hl hf hu h ih =>
    obtain ⟨hfirst, hrest⟩ := List.forall_mem_cons.1 hprobes
    refine List.forall_mem_cons.2 ⟨?_, ih htype hrest⟩
    exact ⟨_, _, _, rfl, attempted_of_finishes htype hf hfirst⟩

/-- **The task succeeds** when it has not failed too often. -/
theorem Attempts.processed (h : Attempts deps worker msg s attempts t)
    (htype : msg.task.type = worker.handles)
    (hprobes : ∀ a ∈ attempts, ∀ st ∈ a.trace, probesRun st = true)
    (hread : msg.task.type = .imageThumbnail → ∀ a ∈ attempts, ∀ st ∈ a.trace, bodyRead st ≠ some none)
    (hs : Processable deps.tools msg.task s)
    (hcount : msg.retried + attempts.countP Attempt.failed ≤ msg.task.maxRetry) :
    Processed msg.task t := by
  induction h with
  | @ends msg s s' t tr err hl hf hend =>
    have hs' := hs.mono (undisturbed_launch hl _)
    have hcame := attempted_of_finishes htype hf (hprobes _ List.mem_cons_self)
    cases err with
    | none => exact hcame.ready rfl hs'.row
    | some e =>
      have hskip : e.skipRetry = false := by
        refine hcame.skipRetry_eq_false hs' fun himage hnone => ?_
        obtain ⟨st, hst, hbody⟩ := List.mem_filterMap.1 hnone
        exact hread himage _ List.mem_cons_self st hst hbody
      have hlt : msg.retried + 1 ≤ msg.task.maxRetry := by simpa [Attempt.failed] using hcount
      refine absurd (hcame.waits e rfl ?_) (hend rfl)
      simp only [terminal, hskip, Bool.false_or, decide_eq_false_iff_not]
      omega
  | again hl hf hu h ih =>
    refine ih htype (fun a ha => hprobes a (List.mem_cons_of_mem _ ha))
      (fun himage a ha => hread himage a (List.mem_cons_of_mem _ ha)) ?_ ?_
    · have hs' := hs.mono (undisturbed_launch hl _)
      exact (hs'.mono (undisturbed_deliver hs'.key hf)).mono hu
    · simp only [List.countP_cons, Attempt.failed, Option.isSome_some, if_true] at hcount ⊢
      omega

end AllAttempts

/-- **Failures are retried, not fatal**, exactly when the task is not an image's, or no attempt fails to
read the original that it has opened. -/
theorem failures_retried_iff (deps : Deps) {worker : Worker} {task : Task} {s t : Store}
    {attempts : List Attempt} (htype : task.type = worker.handles)
    (h : Attempts deps worker ⟨task, 0⟩ s attempts t)
    (hprobes : ∀ a ∈ attempts, ∀ st ∈ a.trace, probesRun st = true) :
    RetriedNotFatal deps.tools task s attempts t ↔
      (task.type = .imageThumbnail → ∀ a ∈ attempts, ∀ st ∈ a.trace, bodyRead st ≠ some none) := by
  constructor
  · intro hall himage a ha st hst hbody
    obtain ⟨msg, s', t', rfl, hcame⟩ := h.attempted htype hprobes a ha
    have hnone : none ∈ a.trace.filterMap bodyRead := List.mem_filterMap.2 ⟨st, hst, hbody⟩
    have hskips : a.err.any TaskError.skipRetry = true := by
      refine hcame.skips.trans (List.any_eq_true.2 ⟨none, hnone, ?_⟩)
      rw [himage]
      rfl
    obtain ⟨e, he, hskip⟩ := (Option.any_eq_true _ _).1 hskips
    obtain ⟨st', hst', body, hbody', -⟩ := hall.skips a ha e he hskip
    have hsome : some body ∈ a.trace.filterMap bodyRead := List.mem_filterMap.2 ⟨st', hst', hbody'⟩
    rw [hcame.once none hnone] at hsome
    cases List.mem_singleton.1 hsome
  · intro hread
    refine ⟨fun hs hcount => h.processed htype hprobes hread hs (by simpa using hcount), ?_⟩
    intro a ha e he hskip
    obtain ⟨msg, s', t', rfl, hcame⟩ := h.attempted htype hprobes a ha
    have hany : (a.trace.filterMap bodyRead).any (deps.tools.rejects msg.task.type) = true := by
      rw [← hcame.skips, he]
      exact hskip
    obtain ⟨b, hb, hrejects⟩ := List.any_eq_true.1 hany
    obtain ⟨st, hst, hbody⟩ := List.mem_filterMap.1 hb
    cases b with
    | none =>
      cases himage : msg.task.type with
      | imageThumbnail => exact absurd hbody (hread himage a ha st hst)
      | videoTranscode =>
        rw [himage] at hrejects
        cases hrejects
    | some body => exact ⟨st, hst, body, hbody, by simpa using hrejects⟩

/-! ### An image and a bucket that fails -/

/-- The attempts with these oracles, a list for each, as long as a retry waits. -/
def playAttempts (deps : Deps) (worker : Worker) :
    Message → List (List Oracle) → Store → Option (List Attempt × Store)
  | _, [], _ => none
  | msg, os :: rest, s =>
    ((Request.deliver worker msg).launch s).bind fun s' =>
      let p := deliver deps.tools worker msg .ret
      ((services deps).play (.deliver worker msg) os p s').bind fun x =>
        match x.2.1 with
        | .processed none => some ([⟨x.1, none⟩], x.2.2)
        | .processed (some e) =>
          if { msg with retried := msg.retried + 1 } ∈ x.2.2.broker.waiting then
            (playAttempts deps worker { msg with retried := msg.retried + 1 } rest x.2.2).map fun y =>
              (⟨x.1, some e⟩ :: y.1, y.2)
          else some ([⟨x.1, some e⟩], x.2.2)
        | _ => none

theorem attempts_of_play {deps : Deps} {worker : Worker} {msg : Message} {os : List (List Oracle)}
    {s t : Store} {attempts : List Attempt}
    (h : playAttempts deps worker msg os s = some (attempts, t)) :
    Attempts deps worker msg s attempts t := by
  induction os generalizing msg s attempts with
  | nil => cases h
  | cons os rest ih =>
    rw [playAttempts] at h
    obtain ⟨s', hl, h⟩ := Option.bind_eq_some_iff.1 h
    obtain ⟨⟨tr, r, u⟩, hplay, h⟩ := Option.bind_eq_some_iff.1 h
    have hf := Machine.finishes_of_play hplay
    dsimp only at h
    split at h
    · obtain ⟨rfl, rfl⟩ := Prod.mk.inj (Option.some.inj h)
      exact .ends hl hf fun herr => absurd herr Bool.false_ne_true
    · split at h
      · obtain ⟨y, hy, h⟩ := Option.map_eq_some_iff.1 h
        obtain ⟨rfl, rfl⟩ := Prod.mk.inj h
        exact .again hl hf (.refl _ _) (ih hy)
      · next hwaits =>
        obtain ⟨rfl, rfl⟩ := Prod.mk.inj (Option.some.inj h)
        exact .ends hl hf fun _ => hwaits
    · cases h

/-- Alice's image is in the bucket, and its row in the database. -/
def imageThere (s : Store) : Bool :=
  s.bucket.object? imageMessage.task.payload.storageKey = some [1, 2, 3] &&
    s.db.files.rows.any fun f => f.id = imageMessage.task.payload.fileID

theorem processable_of_imageThere {s : Store} (h : imageThere s = true) :
    Processable plainDeps.tools imageMessage.task s := by
  simp only [imageThere, Bool.and_eq_true, decide_eq_true_eq, List.any_eq_true] at h
  exact ⟨⟨1, lit "a.png", rfl⟩, ⟨_, h.1, rfl⟩, h.2⟩

/-- The first attempt fails to store the thumbnail, the second one succeeds. -/
theorem failures_retried_image :
    ∃ c : Services, (services plainDeps).Reaches Machine.anySchedule (start (Store.fresh aliceOnly)) c ∧
      ∃ attempts t, Attempts plainDeps .image imageMessage c.store attempts t ∧
        (∃ a ∈ attempts, a.failed = true) ∧ Processed imageMessage.task t := by
  obtain ⟨c, hc, hP⟩ := exists_run Machine.anySchedule uploadImage
    (fun c => imageThere c.store &&
      (playAttempts plainDeps .image imageMessage [[{}, {}, { fails := true }, {}], [{}, {}, {}, {}]]
        c.store).any fun (x : List Attempt × Store) =>
          x.1.any Attempt.failed && decide (x.1.countP Attempt.failed ≤ 5) &&
            x.1.all fun a => a.trace.all fun st => probesRun st && decide (bodyRead st ≠ some none))
    (by decide +kernel)
  simp only [Bool.and_eq_true, Option.any_eq_true, List.any_eq_true, List.all_eq_true,
    decide_eq_true_eq] at hP
  obtain ⟨hthere, ⟨attempts, t⟩, hplay, ⟨herr, hcount⟩, hsteps⟩ := hP
  have h := attempts_of_play hplay
  have hretried := (failures_retried_iff plainDeps
    (show imageMessage.task.type = Worker.image.handles from rfl) h
    fun a ha st hst => (hsteps a ha st hst).1).2 fun _ a ha st hst => (hsteps a ha st hst).2
  exact ⟨c, hc, attempts, t, h, herr, hretried.ready (processable_of_imageThere hthere) hcount⟩

/-- One attempt fails to read the image, and the task is given up. -/
theorem failure_fatal :
    ∃ c : Services, (services plainDeps).Reaches Machine.anySchedule (start (Store.fresh aliceOnly)) c ∧
      ∃ attempts t, Attempts plainDeps .image imageMessage c.store attempts t ∧
        (∀ a ∈ attempts, ∀ st ∈ a.trace, probesRun st = true) ∧
        Processable plainDeps.tools imageMessage.task c.store ∧
        attempts.countP Attempt.failed = 1 ∧ (∀ f ∈ t.db.files, f.status = .failed) ∧
        ¬RetriedNotFatal plainDeps.tools imageMessage.task c.store attempts t := by
  obtain ⟨c, hc, hP⟩ := exists_run Machine.anySchedule uploadImage
    (fun c => imageThere c.store &&
      (playAttempts plainDeps .image imageMessage [[{}, { fails := true }, {}, {}]] c.store).any
        fun (x : List Attempt × Store) => decide (x.1.countP Attempt.failed = 1) &&
          (x.2.db.files.rows.all fun f => f.status = .failed) &&
            x.1.all fun a => a.trace.all probesRun)
    (by decide +kernel)
  simp only [Bool.and_eq_true, Option.any_eq_true, List.all_eq_true, decide_eq_true_eq] at hP
  obtain ⟨hthere, ⟨attempts, t⟩, hplay, ⟨hcount, hfailed⟩, hprobes⟩ := hP
  have hs := processable_of_imageThere hthere
  refine ⟨c, hc, attempts, t, attempts_of_play hplay, hprobes, hs, hcount, hfailed, fun hretried => ?_⟩
  obtain ⟨f, hf, -, hready, -⟩ := hretried.ready hs (hcount.le.trans (by decide))
  cases (hfailed f hf).symm.trans hready

end Optiflow
