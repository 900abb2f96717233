import Optiflow.Model.GoPath
import Mathlib.Data.List.Count

/-!
# Clean paths

A cleaned path is a slash and then elements that name something, with one slash between any two
(`elements_cleanRooted`), and a path of such elements is its own cleaned form (`cleanRooted_clean`).
-/

namespace Optiflow

namespace GoPath

/-- An element of a path that names something: neither empty nor a dot element. -/
structure Element (e : GoString) : Prop where
  ne_nil : e ≠ []
  ne_dot : e ≠ lit "."
  ne_dots : e ≠ lit ".."
  noSlash : 47 ∉ e

/-- The path of the elements. -/
def join (elements : List GoString) : GoString := (lit "/").intercalate elements

variable {above elements : List GoString} {rest : GoString}

/-! ## Resolving -/

/-- Whatever the elements are, those left name something. -/
theorem element_of_mem_resolve (habove : ∀ e ∈ above, Element e)
    (helements : ∀ e ∈ elements, 47 ∉ e) : ∀ e ∈ resolve above elements, Element e := by
  induction elements generalizing above with
  | nil => exact fun e he => habove e (List.mem_reverse.1 he)
  | cons element elements ih =>
    have hrest : ∀ e ∈ elements, 47 ∉ e := fun e he => helements e (List.mem_cons_of_mem _ he)
    unfold resolve
    split
    · exact ih habove hrest
    · next hempty =>
      obtain ⟨hnil, hdot⟩ := not_or.1 hempty
      split
      -- `..` takes the last element away, at the root none.
      · exact ih (fun e he => habove e (List.mem_of_mem_tail he)) hrest
      · next hdots =>
        refine ih (fun e he => ?_) hrest
        rcases List.mem_cons.1 he with rfl | he
        · exact ⟨hnil, hdot, hdots, helements e List.mem_cons_self⟩
        · exact habove e he

/-- Elements that name something stay. -/
theorem resolve_of_elements (h : ∀ e ∈ elements, Element e) :
    resolve above elements = above.reverse ++ elements := by
  induction elements generalizing above with
  | nil => rw [resolve, List.append_nil]
  | cons element elements ih =>
    have he := h element List.mem_cons_self
    have hempty : ¬(element = [] ∨ element = lit ".") := not_or.2 ⟨he.ne_nil, he.ne_dot⟩
    rw [resolve, if_neg hempty, if_neg he.ne_dots, ih fun e he => h e (List.mem_cons_of_mem _ he),
      List.reverse_cons, List.append_assoc, List.singleton_append]

/-! ## Splitting -/

theorem noSlash_of_mem_splitOn {e : GoString} (he : e ∈ rest.splitOn 47) : 47 ∉ e := by
  induction rest generalizing e with
  | nil =>
    rw [List.splitOn_nil, List.mem_singleton] at he
    simp [he]
  | cons c rest ih =>
    rw [List.splitOn_cons_eq_if_modifyHead] at he
    split at he
    · rcases List.mem_cons.1 he with rfl | he
      · exact List.not_mem_nil
      · exact ih he
    · next hc =>
      cases hs : rest.splitOn 47 with
      | nil => exact absurd hs (List.splitOn_ne_nil _ _)
      | cons first others =>
        rw [hs] at he ih
        rcases List.mem_cons.1 he with rfl | he
        · have hfirst := ih (List.mem_cons_self (l := others))
          have hne : ¬47 = c := fun h => hc (by simp [h])
          simp [hfirst, hne]
        · exact ih (List.mem_cons_of_mem _ he)

theorem splitOn_join (h : ∀ e ∈ elements, 47 ∉ e) (hne : elements ≠ []) :
    (join elements).splitOn 47 = elements :=
  List.splitOn_intercalate 47 h hne

/-! ## Cleaning -/

/-- **A cleaned path** is a slash and the path of elements that name something. -/
theorem elements_cleanRooted (rest : GoString) :
    ∃ elements, (∀ e ∈ elements, Element e) ∧ cleanRooted rest = lit "/" ++ join elements :=
  ⟨resolve [] (rest.splitOn 47),
    element_of_mem_resolve (fun _ he => absurd he List.not_mem_nil) fun _ => noSlash_of_mem_splitOn,
    rfl⟩

/-- **Cleaning leaves a clean path alone.** -/
theorem cleanRooted_clean (h : ∀ e ∈ elements, Element e) (hne : elements ≠ []) :
    cleanRooted (join elements) = lit "/" ++ join elements := by
  rw [cleanRooted, splitOn_join (fun e he => (h e he).noSlash) hne, resolve_of_elements h,
    List.reverse_nil, List.nil_append, join]

@[simp] theorem join_singleton (e : GoString) : join [e] = e := List.intercalate_singleton

/-- A path with a single dot is not taken for one that climbs. -/
theorem not_dots_infix {path : GoString} (h : path.count 46 ≤ 1) : ¬lit ".." <:+: path := by
  intro hinfix
  have hle := hinfix.sublist.count_le 46
  have hdots : (lit "..").count 46 = 2 := by decide
  omega

end GoPath

end Optiflow
