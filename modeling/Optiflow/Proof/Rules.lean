import Optiflow.Lib.Alone
import Optiflow.Lib.Watch
import Optiflow.Model.Services
import Optiflow.Proof.Answers
import Optiflow.Proof.Footprint
import Optiflow.Proof.Growth

/-!
# Calls of the services

One rule of `Outline.Safe` for each kind of call: what the call needs, and what the rest of the
program may assume.  `Alone` reads a program that nothing interrupts, and has a rule for each kind of
call too.  Code of plain calls leaves the database alone under both.
-/

namespace Optiflow

open Interleave

variable {deps : Deps} {L : Outline (services deps)} {q : Request} {s : Store} {α : Type}

/-- A call about whose answer nothing need be known. -/
theorem safe_call {e : Stmt α} {k : α → Prog Stmt Reply}
    (hpre : ∀ t, L.rely s t → L.inv t → L.pre q e t)
    (h : ∀ a t o t', L.rely s t → L.inv t → L.cond (.call t q o e a) →
      exec o e t = some (a, t') → L.inv t' → L.Safe q (k a) t') :
    L.Safe q ((Code.call e : Handler α) k) s :=
  fun t hst ht => ⟨hpre t hst ht, fun o a t' hc hx ht' => h a t o t' hst ht hc hx ht'⟩

theorem safe_query {qy : Query α} {k : Except DbError α → Prog Stmt Reply}
    (hpre : ∀ t, L.rely s t → L.inv t → L.pre q (.query qy) t)
    (h : ∀ o t, L.rely s t → L.inv t → L.cond (.call t q o (.query qy) (qy.run o t.db)) →
      L.Safe q (k (qy.run o t.db)) t) : L.Safe q (query qy k) s := by
  refine fun t hst ht => ⟨hpre t hst ht, fun o a t' hc hx ht' => ?_⟩
  rw [services_exec] at hx
  obtain ⟨rfl, rfl⟩ := exec_query hx
  exact h o t' hst ht hc

theorem safe_write {w : Write α} {k : Except DbError α → Prog Stmt Reply}
    (hpre : ∀ t, L.rely s t → L.inv t → L.pre q (.write w) t)
    (h : ∀ o a t db', L.rely s t → L.inv t → L.cond (.call t q o (.write w) a) →
      w.run o t.issued t.db = some (a, db') → L.inv { t with db := db' } →
      L.Safe q (k a) { t with db := db' }) : L.Safe q (write w k) s := by
  refine fun t hst ht => ⟨hpre t hst ht, fun o a t' hc hx ht' => ?_⟩
  rw [services_exec] at hx
  obtain ⟨db', hw, rfl⟩ := exec_write hx
  exact h o a t db' hst ht hc hw ht'

theorem Plain.isWrite {puts : Bool} {e : Stmt α} (he : Plain puts e) : e.isWrite = false := by
  cases e with
  | write w => exact he.elim
  | _ => rfl

/-- When nothing else changes the database, code of plain calls leaves it as it was. -/
theorem safe_over {puts : Bool} (hrely : ∀ {s t}, L.rely s t → t.db = s.db)
    (hpre : ∀ {β : Type} {e : Stmt β} t, Plain puts e → L.pre q e t) (hpost : ∀ r, L.post q r)
    (c : Handler α) {k : α → Prog Stmt Reply} (hc : Inert puts c)
    (h : ∀ a (t : Store), t.db = s.db → L.Safe q (k a) t) : L.Safe q (c k) s := by
  refine hc (fun p => ∀ t : Store, t.db = s.db → L.Safe q p t) (fun e k he hk t hst => ?_)
    (fun r _ _ _ => hpost r) k h s rfl
  exact safe_call (fun u _ _ => hpre u he) fun a u o u' htu _ _ hx _ =>
    hk a u' ((exec_db he.isWrite hx).trans ((hrely htu).trans hst))

/-! ## Calls under a watch -/

section Watched

variable {P : Outline (services deps)} {W : Watch (services deps)}

theorem watched_call {e : Stmt α} {k : α → Prog Stmt Reply}
    (hpre : ∀ t, L.Interference P W ⟨q, .call e k⟩ s t → P.pre q e t → L.pre q e t)
    (h : ∀ a t o t', L.Interference P W ⟨q, .call e k⟩ s t → P.cond (.call t q o e a) →
      exec o e t = some (a, t') → P.inv t' → L.inv t' → L.SafeOver P W q (k a) t') :
    L.SafeOver P W q ((Code.call e : Handler α) k) s :=
  fun t ht hP => ⟨hpre t ht hP, fun o a t' hc _ hx hPt' ht' => h a t o t' ht hc hx hPt' ht'⟩

theorem watched_query {qy : Query α} {k : Except DbError α → Prog Stmt Reply}
    (hpre : ∀ t, L.Interference P W ⟨q, .call (.query qy) k⟩ s t → P.pre q (.query qy) t →
      L.pre q (.query qy) t)
    (h : ∀ o t, L.Interference P W ⟨q, .call (.query qy) k⟩ s t →
      P.cond (.call t q o (.query qy) (qy.run o t.db)) →
      L.SafeOver P W q (k (qy.run o t.db)) t) : L.SafeOver P W q (query qy k) s := by
  refine watched_call hpre fun a t o t' ht hc hx _ _ => ?_
  obtain ⟨rfl, rfl⟩ := exec_query hx
  exact h o t' ht hc

theorem watched_write {w : Write α} {k : Except DbError α → Prog Stmt Reply}
    (hpre : ∀ t, L.Interference P W ⟨q, .call (.write w) k⟩ s t → P.pre q (.write w) t →
      L.pre q (.write w) t)
    (h : ∀ a (t : Store) db', P.inv { t with db := db' } → L.inv { t with db := db' } →
      L.SafeOver P W q (k a) { t with db := db' }) : L.SafeOver P W q (write w k) s := by
  refine watched_call hpre fun a t o t' _ _ hx hPt' ht' => ?_
  obtain ⟨db', -, rfl⟩ := exec_write hx
  exact h a t db' hPt' ht'

end Watched

/-! ## Programs run alone -/

section Alone

variable {C : ServiceStep → Prop} {Ψ : Reply → Store → Prop}

/-- Every run of the program alone, whose calls meet `C`, ends in `Ψ`. -/
abbrev Alone (deps : Deps) (C : ServiceStep → Prop) (q : Request) (p : Prog Stmt Reply) (s : Store)
    (Ψ : Reply → Store → Prop) : Prop :=
  (services deps).Ends C q p s fun _ => Ψ

theorem alone_query {qy : Query α} {k : Except DbError α → Prog Stmt Reply}
    (h : ∀ o, C (.call s q o (.query qy) (qy.run o s.db)) →
      Alone deps C q (k (qy.run o s.db)) s Ψ) : Alone deps C q (query qy k) s Ψ := by
  intro o a s' hC hx
  rw [services_exec] at hx
  obtain ⟨rfl, rfl⟩ := exec_query hx
  exact h o hC

theorem alone_write {w : Write α} {k : Except DbError α → Prog Stmt Reply}
    (h : ∀ o a db', C (.call s q o (.write w) a) → w.run o s.issued s.db = some (a, db') →
      Alone deps C q (k a) { s with db := db' } Ψ) : Alone deps C q (write w k) s Ψ := by
  intro o a s' hC hx
  rw [services_exec] at hx
  obtain ⟨db', hw, rfl⟩ := exec_write hx
  exact h o a db' hC hw

theorem alone_bucket {b : BucketStmt α} {k : α → Prog Stmt Reply}
    (h : ∀ o, C (.call s q o (.bucket b) (b.run o s.now s.bucket).1) →
      Alone deps C q (k (b.run o s.now s.bucket).1)
        { s with bucket := (b.run o s.now s.bucket).2 } Ψ) : Alone deps C q (bucket b k) s Ψ := by
  intro o a s' hC hx
  obtain ⟨rfl, rfl⟩ := Prod.mk.inj (Option.some.inj hx)
  exact h o hC

theorem alone_broker {b : BrokerStmt α} {k : α → Prog Stmt Reply}
    (h : ∀ o, C (.call s q o (.broker b) (b.run o s.broker).1) →
      Alone deps C q (k (b.run o s.broker).1) { s with broker := (b.run o s.broker).2 } Ψ) :
    Alone deps C q (broker b k) s Ψ := by
  intro o a s' hC hx
  obtain ⟨rfl, rfl⟩ := Prod.mk.inj (Option.some.inj hx)
  exact h o hC

theorem alone_staging {st : StagingStmt α} {k : α → Prog Stmt Reply}
    (h : ∀ o, C (.call s q o (.staging st) (st.run o s.staging).1) →
      Alone deps C q (k (st.run o s.staging).1) { s with staging := (st.run o s.staging).2 } Ψ) :
    Alone deps C q (staging st k) s Ψ := by
  intro o a s' hC hx
  obtain ⟨rfl, rfl⟩ := Prod.mk.inj (Option.some.inj hx)
  exact h o hC

/-- Code of plain calls leaves the database as it was. -/
theorem alone_over {puts : Bool} {ρ : Reply → Prop} (c : Handler α) {k : α → Prog Stmt Reply}
    (hc : c.Over (Plain puts) ρ) (hret : ∀ r (t : Store), ρ r → t.db = s.db → Ψ r t)
    (h : ∀ a (t : Store), t.db = s.db → Alone deps C q (k a) t Ψ) : Alone deps C q (c k) s Ψ := by
  refine hc (fun p => ∀ t : Store, t.db = s.db → Alone deps C q p t Ψ) (fun e k he hk t hst => ?_)
    (fun r hr t hst => hret r t hr hst) k h s rfl
  intro o a t' _ hx
  exact hk a t' ((exec_db he.isWrite hx).trans hst)

theorem alone_timeNow {k : Time → Prog Stmt Reply} (h : Alone deps C q (k s.now) s Ψ) :
    Alone deps C q (timeNow k) s Ψ := by
  intro o a s' _ hx
  obtain ⟨rfl, rfl⟩ := Prod.mk.inj (Option.some.inj hx)
  exact h

theorem alone_newUUID {k : UUID → Prog Stmt Reply}
    (h : ∀ id, id ∉ s.issued → ¬s.db.files.Used id →
      Alone deps C q (k id) { s with issued := id :: s.issued } Ψ) :
    Alone deps C q (newUUID k) s Ψ := by
  intro o a s' _ hx
  rw [services_exec] at hx
  simp only [exec] at hx
  split at hx
  · cases hx
  · next hfresh =>
    obtain ⟨rfl, rfl⟩ := Prod.mk.inj (Option.some.inj hx)
    exact h _ (not_or.1 hfresh).1 (not_or.1 hfresh).2

end Alone

/-! ### With one oracle -/

section

variable {o : Oracle}

theorem alone_query_eq (ho : o.fails = false) (qy : Query α) (k : Except DbError α → Prog Stmt Reply) :
    (services deps).alone o (query qy k) s = (services deps).alone o (k (qy.eval s.db)) s := by
  simp [query, Code.call, exec, Query.run, ho]

theorem alone_write_eq (ho : o.fails = false) (w : Write α) (k : Except DbError α → Prog Stmt Reply) :
    (services deps).alone o (write w k) s = (w.commit o s.issued s.db).bind fun x =>
      (services deps).alone o (k x.1) { s with db := x.2 } := by
  simp only [write, Code.call, Machine.alone_call, services_exec, exec, Write.run, ho,
    Bool.false_eq_true, if_false, Option.bind_map]
  rfl

end

/-! ## Programs that can go on -/

section Proceeds

variable {C : ServiceStep → Prop}

/-- `uuid.New` can draw this id. -/
def Store.canDraw (s : Store) (id : UUID) : Prop := id ∉ s.issued ∧ ¬s.db.files.Used id

/-- A call that the oracle `o` lets return. -/
theorem proceeds_call {e : Stmt α} {k : α → Prog Stmt Reply}
    (hcall : ∃ o a s', C (.call s q o e a) ∧ exec o e s = some (a, s'))
    (h : ∀ o a s', exec o e s = some (a, s') → (services deps).Proceeds C q (k a) s') :
    (services deps).Proceeds C q ((Code.call e : Handler α) k) s :=
  ⟨hcall, fun o a s' _ hx => h o a s' hx⟩

end Proceeds

end Optiflow
