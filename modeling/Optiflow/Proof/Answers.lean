import Optiflow.Lib.RelyGuarantee
import Optiflow.Model.Handler

/-!
# Early answers

How the helpers that answer early are read, for any machine whose replies have errors.  `Early` has
one rule for each helper and an arbitrary property `P` of programs that every error answer has (`he`);
the rules of `Outline.Safe` are the cases in use throughout.
-/

universe u

namespace Optiflow

open Interleave

variable {S Q R O V α : Type} {E : Type → Type u} {k : α → Prog E R} {ku : Unit → Prog E R}

theorem parseID_apply [ErrorReply R] {text : GoString} {id : UUID} (h : UUID.parse text = some id)
    (message : String) (k : UUID → Prog E R) : parseID text message k = k id := by
  rw [parseID, h]
  rfl

theorem failIf_apply [ErrorReply R] {p : Prop} [Decidable p] (h : ¬p) (status : ℕ) (message : String)
    (k : Unit → Prog E R) : failIf p status message k = k () := by
  rw [failIf, exitIf, Code.ite_run, if_neg h]
  rfl

namespace Early

variable {P : Prog E R → Prop}

theorem exitIf {p : Prop} [Decidable p] {r : R} (hr : p → P (.ret r)) (h : ¬p → P (ku ())) :
    P (exitIf p r ku) := by
  unfold Optiflow.exitIf
  rw [Code.ite_run]
  split
  · next hp => exact hr hp
  · next hp => exact h hp

variable [ErrorReply R] (he : ∀ status message, P (.ret (ErrorReply.error status message)))
include he

theorem failIf {p : Prop} [Decidable p] {status : ℕ} {message : String} (h : ¬p → P (ku ())) :
    P (failIf p status message ku) :=
  exitIf (fun _ => he _ _) h

theorem parseID {text : GoString} {message : String} {k : UUID → Prog E R}
    (h : ∀ id, UUID.parse text = some id → P (k id)) : P (parseID text message k) := by
  unfold Optiflow.parseID
  cases hid : UUID.parse text with
  | none => exact he _ _
  | some id => exact h id hid

theorem decodeBody {body : Option α} (h : ∀ req, body = some req → P (k req)) :
    P (decodeBody body k) := by
  cases body with
  | none => exact he _ _
  | some req => exact h req rfl

theorem found {missing internal : String} {a : Except DbError α} (h : ∀ x, a = .ok x → P (k x)) :
    P (found missing internal a k) := by
  match a with
  | .ok x => exact h x rfl
  | .error .recordNotFound => exact he _ _
  | .error .other => exact he _ _

theorem foundOr {status : ℕ} {message : String} {a : Except DbError α}
    (h : ∀ x, a = .ok x → P (k x)) : P (foundOr status message a k) := by
  cases a with
  | ok x => exact h x rfl
  | error e => exact he _ _

end Early

/-! ## Safety -/

section Safety

variable {sys : Machine S Q R O V E} {L : Outline sys} {q : Q} {s : S}

theorem safe_exitIf {p : Prop} [Decidable p] {r : R} (hr : p → L.post q r)
    (h : ¬p → L.Safe q (ku ()) s) : L.Safe q (exitIf p r ku) s :=
  Early.exitIf (P := fun p => L.Safe q p s) hr h

variable [ErrorReply R] (he : ∀ status message, L.post q (ErrorReply.error status message))
include he

theorem safe_failIf {p : Prop} [Decidable p] {status : ℕ} {message : String}
    (h : ¬p → L.Safe q (ku ()) s) : L.Safe q (failIf p status message ku) s :=
  Early.failIf (P := fun p => L.Safe q p s) he h

theorem safe_parseID {text : GoString} {message : String} {k : UUID → Prog E R}
    (h : ∀ id, UUID.parse text = some id → L.Safe q (k id) s) :
    L.Safe q (parseID text message k) s :=
  Early.parseID (P := fun p => L.Safe q p s) he h

theorem safe_decodeBody {body : Option α} (h : ∀ req, body = some req → L.Safe q (k req) s) :
    L.Safe q (decodeBody body k) s :=
  Early.decodeBody (P := fun p => L.Safe q p s) he h

theorem safe_found {missing internal : String} {a : Except DbError α}
    (h : ∀ x, a = .ok x → L.Safe q (k x) s) : L.Safe q (found missing internal a k) s :=
  Early.found (P := fun p => L.Safe q p s) he h

theorem safe_foundOr {status : ℕ} {message : String} {a : Except DbError α}
    (h : ∀ x, a = .ok x → L.Safe q (k x) s) : L.Safe q (foundOr status message a k) s :=
  Early.foundOr (P := fun p => L.Safe q p s) he h

end Safety

end Optiflow
