import Optiflow.Proof.Admission

/-!
# Runs without a failing call

`Smoothly` is what every run of a program alone comes to when no call fails: queries then answer what
the tables say.  That there is such a run is said by `Machine.Proceeds`; only writes ask for something,
an id that can still be drawn.
-/

namespace Optiflow

open Interleave UploadSvc

variable {deps : Deps} {q : Request} {s : Store} {α : Type} {userID : UUID}

/-- What `presign` and `presignVersion` do with the outcome of the check. -/
theorem Early.orQuotaError {P : Prog Stmt Reply → Prop}
    (he : ∀ status message, P (.ret (.error status message))) {a : Except QuotaError Unit}
    {ku : Unit → Prog Stmt Reply} (h : P (ku ())) : P (UploadSvc.orQuotaError a ku) := by
  match a with
  | .ok () => exact h
  | .error (.exceeded _) => exact he _ _
  | .error .other => exact he _ _

section Ends

variable {Ψ : Reply → Store → Prop}

/-- Every run of the program alone, without a failing call, ends in `Ψ`. -/
abbrev Smoothly (deps : Deps) (q : Request) (p : Prog Stmt Reply) (s : Store)
    (Ψ : Reply → Store → Prop) : Prop :=
  Alone deps (fun st => succeeds st = true) q p s Ψ

theorem smoothly_query {qy : Query α} {k : Except DbError α → Prog Stmt Reply}
    (h : Smoothly deps q (k (qy.eval s.db)) s Ψ) : Smoothly deps q (query qy k) s Ψ := by
  refine alone_query fun o ho => ?_
  have hfails : o.fails = false := by simpa [succeeds] using ho
  rwa [Query.run, hfails]

/-- The check of the quota leaves the store as it was. -/
theorem alone_checkQuota {C : ServiceStep → Prop} {size : Int64}
    {k : Except QuotaError Unit → Prog Stmt Reply} (h : ∀ a, Alone deps C q (k a) s Ψ) :
    Alone deps C q (checkQuota userID size k) s Ψ := by
  refine alone_query fun o _ => ?_
  cases (Query.storageQuota userID).run o s.db with
  | error e => exact h _
  | ok quota =>
    refine alone_query fun o _ => ?_
    cases (Query.sumSizes userID).run o s.db with
    | error e => exact h _
    | ok used =>
      by_cases hover : used + size > quota
      · simpa [hover] using h _
      · simpa [hover] using h _

/-- A size within the quota passes the check. -/
theorem smoothly_checkQuota_ok {size : Int64} {k : Except QuotaError Unit → Prog Stmt Reply}
    (hquota : s.db.withinQuota userID size = true) (h : Smoothly deps q (k (.ok ())) s Ψ) :
    Smoothly deps q (checkQuota userID size k) s Ψ := by
  unfold DB.withinQuota at hquota
  refine smoothly_query ?_
  cases hq : (Query.storageQuota userID).eval s.db with
  | error e =>
    rw [hq] at hquota
    cases hquota
  | ok quota =>
    refine smoothly_query ?_
    cases hu : (Query.sumSizes userID).eval s.db with
    | error e =>
      rw [hq, hu] at hquota
      cases hquota
    | ok used =>
      rw [hq, hu] at hquota
      have hover : ¬used + size > quota := by simpa using hquota
      simpa [hover] using h

theorem smoothly_presignUpload {file : File}
    (h : ∀ (t : Store) (url : PresignedURL) (expiresAt : Time), t.db = s.db → t.broker = s.broker →
      url.key = file.storageKey → Ψ (.presigned file.id url expiresAt) t) :
    Smoothly deps q (presignUpload file .ret) s Ψ := by
  refine alone_bucket fun o ho => ?_
  have hfails : o.fails = false := by simpa [succeeds] using ho
  simp only [BucketStmt.run, hfails, Bool.false_eq_true, if_false]
  exact alone_timeNow (h _ _ _ rfl rfl rfl)

end Ends

section Proceeds

variable {k : α → Prog Stmt Reply}

/-- The program has a run without a failing call. -/
abbrev CanSucceed (deps : Deps) (q : Request) (p : Prog Stmt Reply) (s : Store) : Prop :=
  (services deps).Proceeds (fun st => succeeds st = true) q p s

/-- Nothing keeps a plain call from returning. -/
theorem exec_plain {puts : Bool} {e : Stmt α} (he : Plain puts e) :
    ∃ o a s', o.fails = false ∧ exec o e s = some (a, s') := by
  cases e with
  | write w => exact he.elim
  | broker b => exact he.elim
  | newUUID => exact he.elim
  | _ => exact ⟨{}, _, _, rfl, rfl⟩

theorem canSucceed_over {puts : Bool} {ρ : Reply → Prop} (c : Handler α) (hc : c.Over (Plain puts) ρ)
    (h : ∀ a t, CanSucceed deps q (k a) t) : CanSucceed deps q (c k) s := by
  refine hc (fun p => ∀ t, CanSucceed deps q p t) (fun e k he hk t => ?_) (fun _ _ _ => trivial) k h s
  obtain ⟨o, a, t', ho, hx⟩ := exec_plain (s := t) he
  exact proceeds_call ⟨o, a, t', by simp [succeeds, ho], hx⟩ fun _ a t' _ => hk a t'

/-- Code that only looks leaves the store as it was. -/
theorem canSucceed_looks (c : Handler α) (hc : Looks c) (h : ∀ a, CanSucceed deps q (k a) s) :
    CanSucceed deps q (c k) s := by
  refine hc (fun p => CanSucceed deps q p s) (fun e k he hk => ?_) (fun _ _ => trivial) k h
  have hplain : Plain true e := he.plain
  obtain ⟨o, a, t, ho, hx⟩ := exec_plain (s := s) hplain
  exact proceeds_call ⟨o, a, t, by simp [succeeds, ho], hx⟩ fun _ a t hx => exec_looks he hx ▸ hk a

theorem canSucceed_query {qy : Query α} {k : Except DbError α → Prog Stmt Reply}
    (h : ∀ a, CanSucceed deps q (k a) s) : CanSucceed deps q (query qy k) s :=
  canSucceed_looks (query qy) (Code.over_call trivial) h

theorem canSucceed_write {w : Write α} {k : Except DbError α → Prog Stmt Reply}
    (hw : ∃ o a db', o.fails = false ∧ w.run o s.issued s.db = some (a, db'))
    (h : ∀ a t, CanSucceed deps q (k a) t) : CanSucceed deps q (write w k) s := by
  obtain ⟨o, a, db', ho, hrun⟩ := hw
  refine proceeds_call ⟨o, a, { s with db := db' }, by simp [succeeds, ho], ?_⟩ fun _ a t _ => h a t
  simp only [exec, hrun, Option.map_some]

end Proceeds

end Optiflow
