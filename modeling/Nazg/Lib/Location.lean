import Nazg.Lib.Bytes

/-!
# Locations of files

A location is the list of the names that lead to it from the top. A path is walked from a
location, name by name: an absolute path begins at the top, an empty name and `.` stay,
and `..` goes up. Links are not followed. What is walked through names without a leading
dot does not leave the location it began at.
-/

namespace Nazg.Lib

abbrev Location := List Bytes

namespace Location

/-- One name of a path. -/
def enter (l : Location) (name : Bytes) : Location :=
  if name = [] ∨ name = bytes "." then l
  else if name = bytes ".." then l.dropLast
  else l ++ [name]

/-- The location that a path leads to. -/
def resolve (l : Location) (path : Bytes) : Location :=
  (path.splitOn 47).foldl enter (if path.head? = some 47 then [] else l)

/-- `fs::path::operator/`. -/
def join (root path : Bytes) : Bytes :=
  if path.head? = some 47 ∨ root = [] then path else root ++ 47 :: path

theorem prefix_enter {name : Bytes} (h : name.head? ≠ some 46) (l : Location) :
    l <+: l.enter name := by
  rw [enter]
  split
  · exact List.prefix_refl l
  · rw [if_neg]
    · exact List.prefix_append l [name]
    · intro hup
      rw [hup] at h
      exact h rfl

theorem prefix_foldl_enter {names : List Bytes} (h : ∀ name ∈ names, name.head? ≠ some 46)
    (l : Location) : l <+: names.foldl enter l := by
  induction names generalizing l with
  | nil => exact List.prefix_refl l
  | cons name names ih =>
      have hfirst := prefix_enter (h name List.mem_cons_self) l
      exact hfirst.trans (ih (fun n hn => h n (List.mem_cons_of_mem name hn)) _)

/-- The first name begins the path, and every other one comes after a slash. -/
theorem splitOn_slash {path first : Bytes} {names : List Bytes}
    (h : path.splitOn 47 = first :: names) :
    first <+: path ∧ ∀ name ∈ names, 47 :: name <:+: path := by
  induction path generalizing first names with
  | nil =>
      rw [List.splitOn_nil] at h
      cases h
      exact ⟨List.prefix_refl _, fun _ hname => absurd hname List.not_mem_nil⟩
  | cons c path ih =>
      cases hpath : path.splitOn 47 with
      | nil => exact absurd hpath (List.splitOn_ne_nil 47 path)
      | cons second rest =>
          obtain ⟨hsecond, hrest⟩ := ih hpath
          have hlater : ∀ name ∈ rest, 47 :: name <:+: c :: path := by
            intro name hname
            exact (hrest name hname).trans (List.suffix_cons c path).isInfix
          rw [List.splitOn_cons_eq_if_modifyHead, hpath] at h
          split at h
          · next hc =>
              obtain rfl : c = 47 := eq_of_beq hc
              cases h
              refine ⟨List.nil_prefix, fun name hname => ?_⟩
              rcases List.mem_cons.1 hname with rfl | hname
              · exact ((List.prefix_cons_inj 47).2 hsecond).isInfix
              · exact hlater name hname
          · rw [List.modifyHead_cons] at h
            cases h
            exact ⟨(List.prefix_cons_inj c).2 hsecond, hlater⟩

/-- No name of the path begins with a dot. -/
structure Dotless (path : Bytes) : Prop where
  head : path.head? ≠ some 46
  later : ¬ [47, 46] <:+: path

theorem Dotless.names {path : Bytes} (h : Dotless path) :
    ∀ name ∈ path.splitOn 47, name.head? ≠ some 46 := by
  intro name hname hdot
  obtain ⟨rest, rfl⟩ : ∃ rest, name = 46 :: rest := List.head?_eq_some_iff.1 hdot
  cases hpath : path.splitOn 47 with
  | nil => exact absurd hpath (List.splitOn_ne_nil 47 path)
  | cons first names =>
      obtain ⟨hfirst, hnames⟩ := splitOn_slash hpath
      rw [hpath] at hname
      rcases List.mem_cons.1 hname with heq | hname
      · obtain ⟨tail, rfl⟩ := heq ▸ hfirst
        exact h.head rfl
      · exact h.later (List.IsInfix.trans ⟨[], rest, rfl⟩ (hnames _ hname))

/-- A relative path without leading dots stays below the root it is joined to. -/
theorem prefix_resolve_join {path : Bytes} (hdotless : Dotless path)
    (hrelative : path.head? ≠ some 47) (l : Location) (root : Bytes) :
    l.resolve root <+: l.resolve (join root path) := by
  have hnames := prefix_foldl_enter hdotless.names
  rw [join]
  split
  · next h =>
      obtain rfl : root = [] := h.resolve_left hrelative
      have hstay : l.resolve [] = l := rfl
      rw [hstay, resolve, if_neg hrelative]
      exact hnames l
  · next h =>
      have hhead : (root ++ 47 :: path).head? = root.head? := by
        cases root with
        | nil => exact absurd (.inr rfl) h
        | cons c root => rfl
      rw [resolve, resolve, hhead, List.splitOn_append_cons_self, List.foldl_append]
      exact hnames _

end Location

end Nazg.Lib
