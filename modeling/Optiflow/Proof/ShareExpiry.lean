import Optiflow.Lib.MachineInt
import Optiflow.Proof.CreateShare
import Optiflow.Proof.Shares

/-!
# When a share expires

`createShare` multiplies the hours it is asked for by the nanoseconds of an hour, in an int64, and only
tests that the hours are positive.  Up to 2562047 hours the product is exact and the share expires when
the owner asked; from there on it wraps, and the request is answered 201 all the same
(`share_expiry_right_iff`).
-/

namespace Optiflow

open Interleave ApiSvc UploadSvc

/-- `time.Hour`. -/
def hour : Time := 3600000000000

/-! ## The property -/

/-- At the time `now` a request that asks for the hours is answered 201 with `resp`; `db` is the
database after it. -/
def SharedAt (deps : Deps) (now : Time) (hours : Int64) (resp : ShareResponse) (db : DB) : Prop :=
  ∃ s userID id req tr t, s.now = now ∧ req.expiresInHours = some hours ∧ t.db = db ∧
    (services deps).Finishes (.createShare userID id req) (createShare userID id req .ret) s tr
      (.share resp) t

/-- The share is stored with an expiry that is `hours` after `now`, and its token is accepted until
then and no longer, as far as the expiry goes, whatever its count has become. -/
structure ExpiresAsAsked (deps : Deps) (now : Time) (hours : Int64) (resp : ShareResponse) (db : DB) :
    Prop where
  stored : resp.share ∈ db.shares
  exact : resp.share.expiresAt = some (now + hours.toInt * hour)
  future : ∀ expiresAt ∈ resp.share.expiresAt, now < expiresAt
  monotone : ∀ fewer resp' db', 0 < fewer → fewer ≤ hours → SharedAt deps now fewer resp' db' →
    ∀ expiresAt ∈ resp.share.expiresAt, ∀ earlier ∈ resp'.share.expiresAt, earlier ≤ expiresAt
  resolves : ∀ (u : Store) (count : ℤ) o k, o.fails = false →
    (Query.share resp.share.token).eval u.db = .ok (resp.share.withCount count) →
    (services deps).alone o (resolveActiveShare resp.share.token k) u = (services deps).alone o
      (k (if u.now ≤ now + hours.toInt * hour then resolveActiveShare.limit (resp.share.withCount count)
        else .error .recordNotFound)) u

/-- Whatever is answered 201 expires as asked. -/
def ExpiryKept (deps : Deps) (now : Time) (hours : Int64) : Prop :=
  ∀ resp db, SharedAt deps now hours resp db → ExpiresAsAsked deps now hours resp db

/-! ## The product -/

section

variable {deps : Deps} {now : Time} {hours : Int64} {resp : ShareResponse} {db : DB}

/-- `time.Duration(hours) * time.Hour` is exact up to 2562047 hours. -/
theorem toInt_hours_iff (hpos : 0 < hours) :
    (hours * 3600000000000).toInt = hours.toInt * hour ↔ hours.toInt ≤ 2562047 := by
  have hpos' : 0 < hours.toInt := Int64.lt_iff_toInt_lt.1 hpos
  have hexact := @Int64.toInt_mul_eq_iff hours 3600000000000
  have hconst : (3600000000000 : Int64).toInt = 3600000000000 := by decide
  rw [hconst] at hexact
  rw [hour, hexact]
  omega

/-- A share that is made stores the product. -/
theorem SharedAt.stored (h : SharedAt deps now hours resp db) : 0 < hours ∧ resp.share ∈ db.shares ∧
    resp.share.expiresAt = some (now + (hours * 3600000000000).toInt) := by
  obtain ⟨s, userID, id, req, tr, t, rfl, hhours, rfl, hf⟩ := h
  have hends : Alone deps (fun _ => True) (.createShare userID id req) (createShare userID id req .ret)
      s fun r t => ∀ resp, r = .share resp → 0 < hours ∧ resp.share ∈ t.db.shares ∧
        resp.share.expiresAt = some (s.now + (hours * 3600000000000).toInt) := by
    refine alone_createShare (H := fun _ _ => True) (fun _ _ _ h => by cases h)
      (fun _ _ _ _ => trivial) fun share fileName hnew hreq hmade resp hresp => ?_
    cases hresp
    refine ⟨hreq.expiry hours hhours, (Table.mem_insert hnew).2 (Or.inl rfl), ?_⟩
    show share.expiresAt = _
    rw [hmade.expiry, hhours, Option.map_some]
  exact hf.of_ends hends (fun _ _ => trivial) resp rfl

/-- The expiry test, on a row with an expiry. -/
theorem alone_resolveActiveShare {o : Oracle} (ho : o.fails = false) {u : Store} {token : GoString}
    {sh : Share} {expiresAt : Time} (hsh : (Query.share token).eval u.db = .ok sh)
    (hexp : sh.expiresAt = some expiresAt) (k : Except DbError Share → Prog Stmt Reply) :
    (services deps).alone o (resolveActiveShare token k) u = (services deps).alone o
      (k (if u.now ≤ expiresAt then resolveActiveShare.limit sh else .error .recordNotFound)) u := by
  refine (alone_query_eq ho _ _).trans ?_
  rw [hsh]
  have hnow : (services deps).alone o (timeNow fun now =>
      k (if now > expiresAt then .error .recordNotFound else resolveActiveShare.limit sh)) u =
      (services deps).alone o
        (k (if u.now > expiresAt then .error .recordNotFound else resolveActiveShare.limit sh)) u := rfl
  by_cases hle : u.now ≤ expiresAt
  · rw [if_neg (not_lt.2 hle)] at hnow
    rw [if_pos hle, ← hnow]
    simp [hexp]
  · rw [if_pos (not_le.1 hle)] at hnow
    rw [if_neg hle, ← hnow]
    simp [hexp]

/-! ## The condition -/

/-- Of positive hours up to 2562047, the shares expire as asked. -/
theorem SharedAt.expiresAsAsked (h : SharedAt deps now hours resp db) (hle : hours.toInt ≤ 2562047) :
    ExpiresAsAsked deps now hours resp db := by
  obtain ⟨hpos, hstored, hexp⟩ := h.stored
  have hpos' : 0 < hours.toInt := Int64.lt_iff_toInt_lt.1 hpos
  rw [(toInt_hours_iff hpos).2 hle] at hexp
  refine ⟨hstored, hexp, fun expiresAt he => ?_, fun fewer resp' db' hfewer hfle h' => ?_,
    fun u count o k ho hu => alone_resolveActiveShare ho hu hexp k⟩
  · obtain rfl := Option.some.inj (hexp.symm.trans he)
    have hadd : 0 < hours.toInt * hour := Int.mul_pos hpos' (by decide)
    exact lt_add_of_pos_right now hadd
  · have hfle' : fewer.toInt ≤ hours.toInt := Int64.le_iff_toInt_le.1 hfle
    intro expiresAt he earlier he'
    have hexp' := h'.stored.2.2
    rw [(toInt_hours_iff hfewer).2 (hfle'.trans hle)] at hexp'
    obtain rfl := Option.some.inj (hexp.symm.trans he)
    obtain rfl := Option.some.inj (hexp'.symm.trans he')
    exact add_le_add_right (Int.mul_le_mul_of_nonneg_right hfle' (by decide)) now

/-- No positive number of hours is rejected. -/
theorem exists_sharedAt (deps : Deps) (now : Time) (hpos : 0 < hours) :
    ∃ resp db, SharedAt deps now hours resp db := by
  have hreq : (⟨some hours, none, none⟩ : ShareCreateRequest).Passes :=
    ⟨fun x hx => Option.some.inj hx ▸ hpos, fun _ hx => by cases hx⟩
  obtain ⟨tr, r, t, hf, -, resp, rfl⟩ := @mayEnd_createShare deps
    (.createShare readyFile.userID (text readyFile.id) ⟨some hours, none, none⟩)
    { sharedStore with now := now } _ (text readyFile.id) readyFile (List.mem_singleton.2 rfl)
    (UUID.parse_string _) hreq (fun _ hx => by cases hx) 1 (lit "other")
    (show ¬sharedStore.db.shares.Used 1 by decide)
    (show sharedStore.db.tokenUsed (lit "other") = false by decide)
  exact ⟨resp, t.db, _, _, _, _, tr, t, rfl, rfl, rfl, hf⟩

/-- **A share expires when the owner asked, if and only if that is at most 2562047 hours ahead.** -/
theorem share_expiry_right_iff (deps : Deps) (now : Time) (hours : Int64) (hpos : 0 < hours) :
    ExpiryKept deps now hours ↔ hours.toInt ≤ 2562047 := by
  constructor
  · intro h
    obtain ⟨resp, db, hshared⟩ := exists_sharedAt deps now hpos
    have hexact := (h resp db hshared).exact
    rw [hshared.stored.2.2, Option.some.injEq, add_right_inj, toInt_hours_iff hpos] at hexact
    exact hexact
  · exact fun hle resp db hshared => hshared.expiresAsAsked hle

/-- The longest expiry, of some 292 years. -/
theorem share_expiry_right_iff_longest : ExpiryKept plainDeps 0 2562047 :=
  (share_expiry_right_iff plainDeps 0 2562047 (by decide)).2 (by decide)

/-- An hour more: the request is answered 201 with a share that expired long ago. -/
theorem share_expiry_wraps :
    ∃ resp db, SharedAt plainDeps 0 2562048 resp db ∧ ¬ExpiresAsAsked plainDeps 0 2562048 resp db ∧
      ∀ expiresAt ∈ resp.share.expiresAt, expiresAt < 0 := by
  obtain ⟨resp, db, h⟩ := @exists_sharedAt 2562048 plainDeps 0 (by decide)
  have hexp : resp.share.expiresAt = some (-9223371273709551616) := by
    rw [h.stored.2.2]
    decide
  refine ⟨resp, db, h, fun hasked => ?_, fun expiresAt he => ?_⟩
  · have hfuture := hasked.future _ hexp
    exact absurd hfuture (by decide)
  · obtain rfl := Option.some.inj (hexp.symm.trans he)
    decide

end

end Optiflow
