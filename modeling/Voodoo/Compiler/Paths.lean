import Voodoo.Compiler.Loader
import Voodoo.Lib.LexicalPath
import Mathlib.Data.List.TakeWhile

/-!
# Normalised paths

`NormalizePath` writes down the place its argument names, reading the text only:
the segments it keeps on its stack are those the place is written with
(`normalizePath_eq`).  What holds of places and their texts holds of it then.

The directory of a file is named by the text before the last slash.  Of a file
directly under the root that text is empty, and `JoinPath` takes an empty
directory for the start.
-/

namespace Voodoo.Compiler

open List

open LexicalPath (Place Segment Root IsName)

/-- A path with its backslashes turned. -/
def unified (path : String) : List Char :=
  path.toList.map (fun c => if c = '\\' then '/' else c)

/-- The place a path names. -/
def placeOf (path : String) : Place := LexicalPath.place (unified path)

/-! ### Segments on the stack -/

theorem splitRoot_eq (cs : List Char) :
    splitRoot cs = ((LexicalPath.splitRoot cs).1.text, (LexicalPath.splitRoot cs).2) := by
  by_cases hslash : ∃ rest, cs = '/' :: rest
  · obtain ⟨rest, rfl⟩ := hslash
    rfl
  by_cases hdrive : ∃ c rest, c.isAlpha = true ∧ cs = c :: ':' :: '/' :: rest
  · obtain ⟨c, rest, hc, rfl⟩ := hdrive
    have hne : c ≠ '/' := fun h => hslash ⟨_, by rw [h]⟩
    have hlib : LexicalPath.splitRoot (c :: ':' :: '/' :: rest) = (.drive ⟨c, hc⟩, rest) :=
      LexicalPath.splitRoot_text (.drive ⟨c, hc⟩) (by simp) rest
    have hhere : splitRoot (c :: ':' :: '/' :: rest) = ([c, ':', '/'], rest) := by
      rw [splitRoot.eq_3 _ _ hne, if_pos hc]
    rw [hlib, hhere]
    rfl
  rw [LexicalPath.splitRoot_eq_start (fun rest h => hslash ⟨rest, h⟩)
    fun c rest hc h => hdrive ⟨c, rest, hc, h⟩]
  unfold splitRoot
  split
  case h_1 => rfl
  case h_2 => exact (hslash ⟨_, rfl⟩).elim
  case h_3 =>
    split
    case isTrue hc => exact (hdrive ⟨_, _, hc, rfl⟩).elim
    case isFalse => rfl
  case h_4 => rfl

theorem text_eq_nil_iff (root : Root) : root.text = [] ↔ root = .start := by
  cases root <;> simp [Root.text]

/-- Two dots on the stack. -/
theorem up_written (l : Place) :
    (match l.written.reverse with
      | top :: below =>
        if top ≠ ['.', '.'] then below
        else if decide (l.root.text = []) = true then ['.', '.'] :: l.written.reverse
        else l.written.reverse
      | [] => if decide (l.root.text = []) = true then [['.', '.']] else []) =
      (l.enter .up).written.reverse := by
  obtain ⟨root, ups, names, rooted⟩ := l
  induction names using List.reverseRecOn with
  | append_singleton names name =>
    have hname : name.val ≠ ['.', '.'] := name.property.2.2.1
    have hwritten : (Place.mk root ups (names ++ [name]) rooted).written.reverse =
        name.val :: (Place.mk root ups names rooted).written.reverse := by
      unfold Place.written
      dsimp only
      rw [map_append, ← List.append_assoc, reverse_append]
      rfl
    have henter : (Place.mk root ups (names ++ [name]) rooted).enter .up =
        Place.mk root ups names rooted := by
      unfold Place.enter
      dsimp only
      rw [if_pos (by simp)]
      exact Place.ext rfl rfl dropLast_concat
    rw [hwritten, henter]
    dsimp only
    rw [if_pos hname]
  | nil =>
    have hreverse (n : Nat) : (List.replicate n ['.', '.'] ++
        ([] : List { seg : List Char // IsName seg }).map Subtype.val).reverse =
          List.replicate n ['.', '.'] := by
      rw [map_nil, append_nil, reverse_replicate]
    have hwritten (n : Nat) (h : root ≠ .start → n = 0) :
        (Place.mk root n [] h).written.reverse = List.replicate n ['.', '.'] := hreverse n
    rw [hwritten]
    by_cases hstart : root = .start
    · have henter : (Place.mk root ups [] rooted).enter .up =
          Place.mk root (ups + 1) [] fun hr => absurd hstart hr := dif_pos hstart
      rw [henter, hwritten, decide_eq_true ((text_eq_nil_iff root).mpr hstart)]
      cases ups with
      | zero => rfl
      | succ ups => rfl
    · have hzero : ups = 0 := rooted hstart
      subst hzero
      have henter : (Place.mk root 0 [] rooted).enter .up = Place.mk root 0 [] rooted :=
        dif_neg hstart
      rw [henter, hwritten, decide_eq_false fun h => hstart ((text_eq_nil_iff root).mp h)]
      rfl

theorem pushSegment_written (l : Place) {seg : List Char} (hseg : '/' ∉ seg) :
    pushSegment (l.root.text = []) l.written.reverse seg =
      (l.enter (Segment.ofText seg)).written.reverse := by
  unfold pushSegment Segment.ofText
  by_cases hstay : seg = [] ∨ seg = ['.']
  · have hname : ¬ IsName seg := by
      rintro ⟨hnil, hdot, -⟩
      exact hstay.elim hnil hdot
    have hup : seg ≠ ['.', '.'] := by
      rintro rfl
      rcases hstay with h | h <;> cases h
    rw [if_pos hstay, dif_neg hname, if_neg hup]
    rfl
  rw [if_neg hstay]
  by_cases hup : seg = ['.', '.']
  · subst hup
    have hname : ¬ IsName ['.', '.'] := fun h => h.2.2.1 rfl
    rw [if_pos rfl, dif_neg hname, if_pos rfl]
    exact up_written l
  · have hname : IsName seg := by
      rw [not_or] at hstay
      exact ⟨hstay.1, hstay.2, hup, hseg⟩
    rw [if_neg hup, dif_pos hname]
    have hdown : (l.enter (.down ⟨seg, hname⟩)).written = l.written ++ [seg] := by
      unfold Place.written Place.enter
      dsimp only
      rw [map_append, List.append_assoc]
      rfl
    rw [hdown, reverse_append]
    rfl

theorem foldl_pushSegment (l : Place) {segs : List (List Char)} (hsegs : ∀ seg ∈ segs, '/' ∉ seg) :
    segs.foldl (pushSegment (l.root.text = [])) l.written.reverse =
      (l.follow (segs.map Segment.ofText)).written.reverse := by
  induction segs generalizing l with
  | nil => rfl
  | cons seg segs ih =>
    rw [foldl_cons, pushSegment_written l (hsegs seg mem_cons_self)]
    have hrest := ih (l.enter (Segment.ofText seg)) fun s hs => hsegs s (mem_cons_of_mem _ hs)
    rw [LexicalPath.root_enter] at hrest
    exact hrest

/-- **`NormalizePath` writes the place down.** -/
theorem normalizePath_eq (path : String) :
    normalizePath path = String.ofList (placeOf path).shown := by
  have hstack := @foldl_pushSegment (Place.atRoot (LexicalPath.splitRoot (unified path)).1)
    ((LexicalPath.splitRoot (unified path)).2.splitOn '/')
    fun seg hseg hslash => (LexicalPath.mem_of_mem_splitOn hseg hslash).2 rfl
  have hroot : (placeOf path).root = (LexicalPath.splitRoot (unified path)).1 :=
    LexicalPath.root_follow _ _
  have htext : (LexicalPath.splitRoot (unified path)).1.text ++
      ['/'].intercalate (((LexicalPath.splitRoot (unified path)).2.splitOn '/').foldl
        (pushSegment ((LexicalPath.splitRoot (unified path)).1.text = [])) []).reverse =
          (placeOf path).text := by
    have hwritten : (((LexicalPath.splitRoot (unified path)).2.splitOn '/').foldl
        (pushSegment ((LexicalPath.splitRoot (unified path)).1.text = [])) []).reverse =
          (placeOf path).written := by
      rw [← reverse_reverse (placeOf path).written]
      exact congrArg List.reverse hstack
    rw [hwritten, ← hroot]
    rfl
  have hnormal : normalizePath path =
      if (placeOf path).text = [] then "." else String.ofList (placeOf path).text := by
    unfold normalizePath
    rw [show splitRoot (path.toList.map _) = _ from splitRoot_eq (unified path)]
    dsimp only
    rw [htext]
  rw [hnormal, Place.shown]
  split <;> rfl

/-! ### Directories -/

theorem unified_append (a b : String) : unified (a ++ b) = unified a ++ unified b := by
  rw [unified, String.toList_append, map_append]
  rfl

theorem turn_eq_slash_iff (c : Char) :
    (if c = '\\' then '/' else c) = '/' ↔ c = '/' ∨ c = '\\' := by
  split
  case isTrue h => exact ⟨fun _ => Or.inr h, fun _ => rfl⟩
  case isFalse h => exact ⟨Or.inl, fun hor => hor.resolve_right h⟩

/-- The text before the last slash, if there is one. -/
theorem unified_dirName (path : String) :
    ('/' ∉ unified path ∧ dirName path = "") ∨
      ∃ last, '/' ∉ last ∧ unified path = unified (dirName path) ++ '/' :: last := by
  have hsplit := takeWhile_append_dropWhile (p := fun c => c ≠ '/' && c ≠ '\\')
    (l := path.toList.reverse)
  have hlast : ∀ c ∈ path.toList.reverse.takeWhile (fun c => c ≠ '/' && c ≠ '\\'),
      ¬ (c = '/' ∨ c = '\\') := by
    intro c hc
    have hnot := mem_takeWhile_imp hc
    rw [Bool.and_eq_true, decide_eq_true_eq, decide_eq_true_eq] at hnot
    exact not_or.mpr hnot
  unfold dirName
  cases hdrop : path.toList.reverse.dropWhile (fun c => c ≠ '/' && c ≠ '\\') with
  | nil =>
    refine Or.inl ⟨fun hmem => ?_, rfl⟩
    rw [hdrop, append_nil] at hsplit
    obtain ⟨c, hc, hturn⟩ := List.mem_map.mp hmem
    rw [← mem_reverse, ← hsplit] at hc
    exact hlast c hc ((turn_eq_slash_iff c).mp hturn)
  | cons sep rest =>
    have hsep : sep = '/' ∨ sep = '\\' := by
      have hhead := head?_dropWhile_not (fun c => c ≠ '/' && c ≠ '\\') path.toList.reverse
      rw [hdrop] at hhead
      have hnot : (sep ≠ '/' && sep ≠ '\\') = false := hhead
      rw [Bool.and_eq_false_iff, decide_eq_false_iff_not, decide_eq_false_iff_not, not_not,
        not_not] at hnot
      exact hnot
    refine Or.inr ⟨((path.toList.reverse.takeWhile
      (fun c => c ≠ '/' && c ≠ '\\')).reverse).map (fun c => if c = '\\' then '/' else c), ?_, ?_⟩
    · intro hmem
      obtain ⟨c, hc, hturn⟩ := List.mem_map.mp hmem
      exact hlast c (mem_reverse.mp hc) ((turn_eq_slash_iff c).mp hturn)
    · have hpath : path.toList = rest.reverse ++ sep ::
          (path.toList.reverse.takeWhile (fun c => c ≠ '/' && c ≠ '\\')).reverse := by
        rw [hdrop] at hsplit
        have hrev := congrArg List.reverse hsplit
        rw [reverse_reverse, reverse_append, reverse_cons, List.append_assoc] at hrev
        exact hrev.symm
      rw [unified, unified]
      conv_lhs => rw [hpath]
      rw [map_append, map_cons, (turn_eq_slash_iff sep).mpr hsep, tail_cons,
        String.toList_ofList]

theorem unified_joinPath (dir rel : String) (hdir : dir ≠ "") :
    unified (joinPath dir rel) = unified dir ++ '/' :: unified rel ∨
      ∃ d, unified dir = d ++ ['/'] ∧ unified (joinPath dir rel) = d ++ '/' :: unified rel := by
  have hne : dir.toList ≠ [] := fun h => hdir (String.toList_eq_nil_iff.mp h)
  have hget : dir.toList.getLast? = some (dir.toList.getLast hne) :=
    getLast?_eq_some_getLast hne
  have hinit := dropLast_append_getLast hne
  unfold joinPath
  rw [hget]
  dsimp only
  split
  case isTrue hsep =>
    have hdirs : unified dir =
        dir.toList.dropLast.map (fun c => if c = '\\' then '/' else c) ++ ['/'] := by
      rw [unified, ← hinit, map_append, map_singleton,
        (turn_eq_slash_iff _).mpr hsep, hinit]
    refine Or.inr ⟨_, hdirs, ?_⟩
    rw [unified_append, hdirs, List.append_assoc]
    rfl
  case isFalse =>
    refine Or.inl ?_
    rw [unified_append, unified_append, List.append_assoc]
    rfl

/-- A file directly under the root. -/
def DirectlyUnderRoot (path : String) : Prop := ∃ last, '/' ∉ last ∧ unified path = '/' :: last

/-- A path without a root. -/
def IsRelative (path : String) : Prop := (LexicalPath.splitRoot (unified path)).1 = .start

/-- **What a file imports is found from where the file is.** -/
theorem placeOf_joinPath {p q : String} (hq : IsRelative q) (hp : ¬ DirectlyUnderRoot p) :
    placeOf (joinPath (dirName p) q) =
      (LexicalPath.directory (unified p)).follow (LexicalPath.segments (unified q)) := by
  rcases unified_dirName p with ⟨hnone, hdir⟩ | ⟨last, hlast, hsplit⟩
  · have hjoin : joinPath (dirName p) q = q := by
      rw [hdir]
      rfl
    rw [hjoin, LexicalPath.directory_of_not_mem hnone]
    exact LexicalPath.place_of_relative hq
  · have hdir : dirName p ≠ "" := by
      intro hnil
      refine hp ⟨last, hlast, ?_⟩
      rw [hsplit, hnil]
      rfl
    rcases unified_joinPath (dirName p) q hdir with hjoin | ⟨d, hd, hjoin⟩
    · rw [placeOf, hjoin, hsplit]
      exact LexicalPath.place_append _ _ hlast
    · rw [placeOf, hjoin, hsplit, hd, ← LexicalPath.place_slash_slash, List.append_assoc]
      have happ := LexicalPath.place_append (d ++ ['/']) (unified q) hlast
      rw [List.append_assoc, List.append_assoc] at happ
      exact happ

/-! ### What a normalised path is -/

theorem unified_normalizePath (path : String) :
    unified (normalizePath path) = (placeOf path).shown := by
  have hturned : ∀ c ∈ (placeOf path).shown, (if c = '\\' then '/' else c) = c := by
    intro c hc
    refine if_neg ?_
    rintro rfl
    rcases LexicalPath.mem_shown hc with h | h | h
    · cases h
    · cases h
    · obtain ⟨a, -, ha⟩ := List.mem_map.mp h
      split at ha
      case isTrue => cases ha
      case isFalse hne => exact hne ha
  rw [normalizePath_eq, unified, String.toList_ofList]
  exact (map_congr_left hturned).trans (List.map_id _)

theorem normalizePath_idem (path : String) :
    normalizePath (normalizePath path) = normalizePath path := by
  rw [normalizePath_eq (normalizePath path), placeOf, unified_normalizePath,
    LexicalPath.shown_place_shown, normalizePath_eq path]

/-- **Normalised paths are the places.** -/
theorem normalizePath_places :
    (∀ p, normalizePath (normalizePath p) = normalizePath p) ∧
      (∀ p, (normalizePath p = "." ∧ placeOf p = .atRoot .start) ∨
        LexicalPath.WellWritten (normalizePath p).toList) ∧
      (∀ p q, placeOf p = placeOf q → normalizePath p = normalizePath q) ∧
      (∀ p q, ¬ (placeOf p).LooksRooted → ¬ (placeOf q).LooksRooted →
        placeOf p ≠ placeOf q → normalizePath p ≠ normalizePath q) ∧
      (∀ p, placeOf p = (LexicalPath.directory (unified p)).enter
        (LexicalPath.lastSegment (unified p))) ∧
      ∀ p q, IsRelative q → ¬ DirectlyUnderRoot p →
        normalizePath (joinPath (dirName p) q) = String.ofList
          ((LexicalPath.directory (unified p)).follow
            (LexicalPath.segments (unified q))).shown := by
  refine ⟨normalizePath_idem, fun p => ?_, fun p q h => ?_, fun p q hp hq hne h => ?_,
    fun p => LexicalPath.place_eq_enter _, fun p q hq hp => ?_⟩
  · rw [normalizePath_eq, String.toList_ofList, Place.shown]
    split
    case isTrue hnil => exact Or.inl ⟨rfl, LexicalPath.eq_start_of_text_eq_nil hnil⟩
    case isFalse => exact Or.inr (LexicalPath.wellWritten_text _)
  · rw [normalizePath_eq, normalizePath_eq, h]
  · rw [normalizePath_eq, normalizePath_eq] at h
    exact hne ((LexicalPath.shown_inj hp hq).mp (String.ofList_injective h))
  · rw [normalizePath_eq, placeOf_joinPath hq hp]

/-- The start is written as a dot, a file on a drive and one in a directory of the drive's name
are not kept apart, and what a file under the root imports is looked for at the start. -/
theorem not_normalizePath_places :
    normalizePath "" = "." ∧
      (placeOf "./C:/x" ≠ placeOf "C:/x" ∧ normalizePath "./C:/x" = normalizePath "C:/x") ∧
      (placeOf "/b" = (LexicalPath.directory (unified "/a")).follow
          (LexicalPath.segments (unified "b")) ∧
        normalizePath (joinPath (dirName "/a") "b") ≠ normalizePath "/b") ∧
      normalizePath (joinPath (dirName "a/b") "/x") ≠ normalizePath "/x" := by
  decide

end Voodoo.Compiler
