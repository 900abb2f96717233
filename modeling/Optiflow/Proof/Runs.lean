import Optiflow.Proof.KnownCalls

/-!
# Runs of the services

Where runs start, and the conditions on steps that several results share.
-/

namespace Optiflow

open Interleave

/-- A deployment with accounts and nothing else. -/
def Store.fresh (users : Table User) : Store :=
  { Store.empty with db := { DB.empty with users := users } }

theorem wellFormed_fresh (users : Table User) : WellFormed (Store.fresh users) where
  file _ hf := absurd hf Table.not_mem_empty
  version _ hb := absurd hb List.not_mem_nil
  root _ hb := absurd hb List.not_mem_nil
  folder _ hf := absurd hf Table.not_mem_empty
  share _ hs := absurd hs Table.not_mem_empty
  waiting _ hm := absurd hm List.not_mem_nil
  delivered _ hm := absurd hm List.not_mem_nil

/-- The configuration before any request. -/
abbrev start (s : Store) : Services := .init s

/-- No call of the run fails. -/
def succeeds : ServiceStep → Bool
  | .call _ _ o _ _ => !o.fails
  | _ => true

/-- An invariant of the database need only be kept by writes, each issued with what it should know. -/
theorem db_always (deps : Deps) (users : Table User) {c : Services} {I : DB → Prop}
    {C : ServiceStep → Prop}
    (h : (services deps).Reaches Machine.anySchedule (start (Store.fresh users)) c)
    (hI : I (Store.fresh users).db) (hC : ∀ st ∈ c.trace, C st)
    (hwrite : ∀ {q o} {α : Type} {w : Write α} {a s db'}, C (.call s q o (.write w) a) →
      WellFormed s → WriteKnown s q w → I s.db → w.run o s.issued s.db = some (a, db') → I db') :
    WellFormed c.store ∧ I c.store.db := by
  have hP := provenance_valid deps
  refine ⟨(hP.good h (Outline.good_init (wellFormed_fresh users)) fun _ _ => trivial).1, ?_⟩
  refine hP.always (I := fun s => I s.db) h (wellFormed_fresh users) hI (fun _ _ => trivial) hC
    ?_ ?_ ?_
  · intro q s s' _ _ hinv hq
    rw [services_launch] at hq
    rwa [(launch_cases hq).1]
  · intro q o α e a s s' hc hs hpre hinv hx
    rw [services_exec] at hx
    cases e with
    | write w =>
      obtain ⟨db', hw, rfl⟩ := exec_write hx
      exact hwrite hc hs hpre hinv hw
    | _ => rwa [exec_db rfl hx]
  · intro v s s' _ _ hinv hv
    rw [services_env] at hv
    rwa [(env_cases hv).1]

/-! ## A small deployment -/

/-- An account with a quota of 1000 bytes. -/
def alice : User := ⟨1, lit "alice@example.org", lit "hash", lit "Alice", 1000⟩

theorem not_used_alice : ¬(Table.empty : Table User).Used (key alice) := by simp [Table.Used]

def aliceOnly : Table User := Table.empty.insert alice not_used_alice

/-- Libraries that accept every image and video, and compare passwords as they are. -/
def plainDeps : Deps where
  tools :=
    { notifies := false
      thumbnail := .jpeg
      probeDimensions := fun _ => some (640, 480)
      probeDuration := fun _ => true }
  verifyPassword hash password := hash = password

/-- A list of moves of this deployment leads to a configuration that passes a test. -/
theorem exists_run (sch : Machine.Schedule Store Request Reply Oracle EnvMove Stmt)
    (ms : List (Move Request Oracle EnvMove)) (P : Services → Bool)
    (h : ((services plainDeps).runMoves sch ms (start (Store.fresh aliceOnly))).elim false P = true) :
    ∃ c, (services plainDeps).Reaches sch (start (Store.fresh aliceOnly)) c ∧ P c = true :=
  Machine.exists_reaches _ sch _ P ms h

/-- Alice's requests name files and folders by the text of their ids. -/
abbrev text (id : UUID) : GoString := UUID.string id

end Optiflow
