import Mathlib.Data.List.Basic
import Mathlib.Data.List.Induction

/-!
# Paths as places

A path, read as text only, names a place: a root, a number of steps above the
start where there is no root, and the names from there on down.  `enter` is
where one more segment leads, and `follow` where a list of segments leads.

`shown` writes a place down.  What is written leads to the place again
(`place_shown`), so that a place has one text and a text one place.  In the way
is only a place without root whose first name reads as a drive, `LooksRooted`;
what is written for it is the text of another place, on that drive.
-/

namespace LexicalPath

open List

/-- A segment that leads down. -/
def IsName (seg : List Char) : Prop :=
  seg ≠ [] ∧ seg ≠ ['.'] ∧ seg ≠ ['.', '.'] ∧ '/' ∉ seg

instance (seg : List Char) : Decidable (IsName seg) := inferInstanceAs (Decidable (_ ∧ _))

inductive Root where
  | start
  | slash
  | drive (letter : { c : Char // c.isAlpha = true })
  deriving DecidableEq

def Root.text : Root → List Char
  | start => []
  | slash => ['/']
  | drive letter => [letter.val, ':', '/']

inductive Segment where
  | stay
  | up
  | down (name : { seg : List Char // IsName seg })

def Segment.ofText (seg : List Char) : Segment :=
  if h : IsName seg then .down ⟨seg, h⟩ else if seg = ['.', '.'] then .up else .stay

/-- The segments of a path behind its root. -/
def segments (rest : List Char) : List Segment := (rest.splitOn '/').map Segment.ofText

/-- Above a root there is nothing. -/
@[ext] structure Place where
  root : Root
  ups : Nat
  names : List { seg : List Char // IsName seg }
  rooted : root ≠ .start → ups = 0
  deriving DecidableEq

namespace Place

def atRoot (root : Root) : Place := ⟨root, 0, [], fun _ => rfl⟩

def enter (l : Place) : Segment → Place
  | .stay => l
  | .down name => { l with names := l.names ++ [name] }
  | .up =>
    if l.names ≠ [] then { l with names := l.names.dropLast }
    else if h : l.root = .start then { l with ups := l.ups + 1, rooted := fun hr => absurd h hr }
    else l

def follow (l : Place) (segs : List Segment) : Place := segs.foldl enter l

/-- The segments it is written with. -/
def written (l : Place) : List (List Char) :=
  List.replicate l.ups ['.', '.'] ++ l.names.map Subtype.val

def text (l : Place) : List Char := l.root.text ++ ['/'].intercalate l.written

/-- The start itself is written as a dot. -/
def shown (l : Place) : List Char := if l.text = [] then ['.'] else l.text

/-- Without root, but its text begins as that of a drive does. -/
def LooksRooted (l : Place) : Prop :=
  l.root = .start ∧ ∃ c name rest, c.isAlpha = true ∧ l.written = [c, ':'] :: name :: rest

end Place

open Place

/-- The root of a path and what follows it. -/
def splitRoot : List Char → Root × List Char
  | '/' :: cs => (.slash, cs)
  | c :: ':' :: '/' :: cs =>
    if h : c.isAlpha = true then (.drive ⟨c, h⟩, cs) else (.start, c :: ':' :: '/' :: cs)
  | cs => (.start, cs)

/-- The place a path with forward slashes names. -/
def place (cs : List Char) : Place := (atRoot (splitRoot cs).1).follow (segments (splitRoot cs).2)

/-- The last segment of a path. -/
def lastSegment (cs : List Char) : Segment :=
  (segments (splitRoot cs).2).getLastD .stay

/-- The place the other segments name: for a file, where it is. -/
def directory (cs : List Char) : Place :=
  (atRoot (splitRoot cs).1).follow (segments (splitRoot cs).2).dropLast

/-- What a path is written with behind its root. -/
def WellWritten (cs : List Char) : Prop :=
  (splitRoot cs).2 = [] ∨
    ∃ ups names, (splitRoot cs).2.splitOn '/' = List.replicate ups ['.', '.'] ++ names ∧
      (∀ name ∈ names, IsName name) ∧ ((splitRoot cs).1 ≠ .start → ups = 0)

/-! ### Segments -/

theorem ofText_of_isName {seg : List Char} (h : IsName seg) :
    Segment.ofText seg = .down ⟨seg, h⟩ := dif_pos h

theorem segments_append (as bs : List Char) :
    segments (as ++ '/' :: bs) = segments as ++ segments bs := by
  rw [segments, splitOn_append_cons_self, map_append]
  rfl

theorem mem_of_mem_splitOn {cs seg : List Char} (h : seg ∈ cs.splitOn '/') {c : Char}
    (hc : c ∈ seg) : c ∈ cs ∧ c ≠ '/' := by
  induction cs generalizing seg with
  | nil =>
    rw [splitOn_nil, mem_singleton] at h
    rw [h] at hc
    cases hc
  | cons a cs ih =>
    rw [splitOn_cons_eq_if_modifyHead] at h
    split at h
    case isTrue =>
      rcases mem_cons.mp h with rfl | hmem
      · cases hc
      · exact ⟨mem_cons_of_mem _ (ih hmem hc).1, (ih hmem hc).2⟩
    case isFalse ha =>
      cases hsplit : cs.splitOn '/' with
      | nil => exact absurd hsplit (splitOn_ne_nil '/' cs)
      | cons first more =>
        rw [hsplit] at h ih
        rcases mem_cons.mp h with rfl | hmem
        · rcases mem_cons.mp hc with rfl | hfirst
          · refine ⟨mem_cons_self, ?_⟩
            rintro rfl
            exact ha (beq_self_eq_true '/')
          · have hrest := ih mem_cons_self hfirst
            exact ⟨mem_cons_of_mem _ hrest.1, hrest.2⟩
        · have hrest := ih (mem_cons_of_mem _ hmem) hc
          exact ⟨mem_cons_of_mem _ hrest.1, hrest.2⟩

theorem segments_of_not_mem {cs : List Char} (h : '/' ∉ cs) :
    segments cs = [Segment.ofText cs] := by
  rw [segments, splitOn_eq_singleton h]
  rfl

theorem follow_segments_nil (l : Place) : l.follow (segments []) = l := rfl

theorem follow_append (l : Place) (as bs : List Segment) :
    l.follow (as ++ bs) = (l.follow as).follow bs := foldl_append

@[simp] theorem root_enter (l : Place) (seg : Segment) : (l.enter seg).root = l.root := by
  cases seg with
  | stay => rfl
  | down name => rfl
  | up =>
    unfold enter
    dsimp only
    split
    · rfl
    · split <;> rfl

@[simp] theorem root_follow (l : Place) (segs : List Segment) : (l.follow segs).root = l.root := by
  induction segs generalizing l with
  | nil => rfl
  | cons seg segs ih =>
    change ((l.enter seg).follow segs).root = _
    rw [ih, root_enter]

theorem mem_names_follow {l : Place} {segs : List Segment} {name : { seg : List Char // IsName seg }}
    (h : name ∈ (l.follow segs).names) : name ∈ l.names ∨ .down name ∈ segs := by
  induction segs generalizing l with
  | nil => exact Or.inl h
  | cons seg segs ih =>
    rcases ih (l := l.enter seg) h with hl | hsegs
    · cases seg with
      | stay => exact Or.inl hl
      | down down =>
        rcases mem_append.mp hl with hl | hdown
        · exact Or.inl hl
        · rw [mem_singleton.mp hdown]
          exact Or.inr mem_cons_self
      | up =>
        refine Or.inl ?_
        unfold enter at hl
        dsimp only at hl
        split at hl
        · exact dropLast_subset _ hl
        · split at hl <;> exact hl
    · exact Or.inr (mem_cons_of_mem _ hsegs)

/-! ### What is written -/

theorem not_mem_written {l : Place} {seg : List Char} (h : seg ∈ l.written) : '/' ∉ seg := by
  rcases mem_append.mp h with hup | hname
  · rw [eq_of_mem_replicate hup]
    decide
  · obtain ⟨name, -, rfl⟩ := List.mem_map.mp hname
    exact name.property.2.2.2

theorem ne_nil_of_mem_written {l : Place} {seg : List Char} (h : seg ∈ l.written) : seg ≠ [] := by
  rcases mem_append.mp h with hup | hname
  · rw [eq_of_mem_replicate hup]
    decide
  · obtain ⟨name, -, rfl⟩ := List.mem_map.mp hname
    exact name.property.1

theorem follow_ups (l : Place) (hstart : l.root = .start) (hnames : l.names = []) (n : Nat) :
    l.follow (List.replicate n .up) =
      { l with ups := l.ups + n, rooted := fun hr => absurd hstart hr } := by
  induction n generalizing l with
  | zero => rfl
  | succ n ih =>
    have hup : l.enter .up =
        { l with ups := l.ups + 1, rooted := fun hr => absurd hstart hr } := by
      unfold enter
      dsimp only
      rw [if_neg (fun hne => hne hnames), dif_pos hstart]
    rw [replicate_succ]
    change (l.enter .up).follow (List.replicate n .up) = _
    rw [hup]
    refine (ih { l with ups := l.ups + 1, rooted := fun hr => absurd hstart hr } hstart
      hnames).trans (Place.ext rfl ?_ rfl)
    exact (Nat.add_assoc l.ups 1 n).trans (congrArg _ (Nat.add_comm 1 n))

theorem follow_downs (l : Place) (names : List { seg : List Char // IsName seg }) :
    l.follow (names.map .down) = { l with names := l.names ++ names } := by
  induction names generalizing l with
  | nil => exact Place.ext rfl rfl (append_nil _).symm
  | cons name names ih =>
    change (l.enter (.down name)).follow (names.map .down) = _
    rw [ih]
    exact Place.ext rfl rfl (List.append_assoc l.names [name] names)

theorem follow_written (l : Place) :
    (atRoot l.root).follow (l.written.map Segment.ofText) = l := by
  obtain ⟨root, ups, names, rooted⟩ := l
  have hnames : (names.map Subtype.val).map Segment.ofText = names.map .down := by
    rw [List.map_map]
    exact map_congr_left fun name _ => ofText_of_isName name.property
  have hups : (List.replicate ups ['.', '.']).map Segment.ofText = List.replicate ups .up := by
    rw [map_replicate]
    rfl
  unfold written
  dsimp only
  rw [map_append, hups, hnames, follow_append]
  by_cases hstart : root = .start
  · rw [follow_ups _ hstart rfl, follow_downs]
    exact Place.ext rfl (Nat.zero_add ups) rfl
  · have hzero := rooted hstart
    subst hzero
    exact follow_downs _ _

theorem segments_intercalate (l : Place) (h : l.written ≠ []) :
    segments (['/'].intercalate l.written) = l.written.map Segment.ofText := by
  rw [segments, splitOn_intercalate '/' (fun seg hseg => not_mem_written hseg) h]

theorem follow_segments_written (l : Place) :
    (atRoot l.root).follow (segments (['/'].intercalate l.written)) = l := by
  by_cases h : l.written = []
  · have hl := follow_written l
    rw [h] at hl ⊢
    exact hl
  · rw [segments_intercalate l h]
    exact follow_written l

/-! ### Roots -/

theorem splitRoot_text (root : Root) (hroot : root ≠ .start) (cs : List Char) :
    splitRoot (root.text ++ cs) = (root, cs) := by
  cases root with
  | start => exact absurd rfl hroot
  | slash => rfl
  | drive letter =>
    obtain ⟨c, hc⟩ := letter
    have hslash : c ≠ '/' := by
      rintro rfl
      cases hc
    change splitRoot (c :: ':' :: '/' :: cs) = _
    unfold splitRoot
    split
    case h_1 heq => exact absurd (List.cons.inj heq).1 hslash
    case h_2 heq =>
      obtain ⟨rfl, htail⟩ := List.cons.inj heq
      obtain ⟨-, htail⟩ := List.cons.inj htail
      obtain ⟨-, rfl⟩ := List.cons.inj htail
      rw [dif_pos hc]
    case h_3 hne => exact absurd rfl (hne c cs)

theorem text_splitRoot (cs : List Char) : (splitRoot cs).1.text ++ (splitRoot cs).2 = cs := by
  unfold splitRoot
  split
  · rfl
  · split <;> rfl
  · rfl

/-- Two segments and more begin with a root only if the first is empty or a drive. -/
theorem splitRoot_segments {first : List Char} {rest : List Char} (hfirst : first ≠ [])
    (hslash : '/' ∉ first) (hdrive : ∀ c, first = [c, ':'] → c.isAlpha = false) :
    splitRoot (first ++ '/' :: rest) = (.start, first ++ '/' :: rest) := by
  match first with
  | [] => exact absurd rfl hfirst
  | [a] =>
    have ha : a ≠ '/' := fun h => hslash (by rw [h]; exact mem_singleton.mpr rfl)
    unfold splitRoot
    split
    case h_1 heq => exact absurd (List.cons.inj heq).1 ha
    case h_2 heq =>
      obtain ⟨-, htail⟩ := List.cons.inj heq
      cases (List.cons.inj htail).1
    case h_3 => rfl
  | [a, b] =>
    have ha : a ≠ '/' := fun h => hslash (by rw [h]; exact mem_cons_self)
    unfold splitRoot
    split
    case h_1 heq => exact absurd (List.cons.inj heq).1 ha
    case h_2 c cs heq =>
      obtain ⟨rfl, htail⟩ := List.cons.inj heq
      obtain ⟨rfl, -⟩ := List.cons.inj htail
      have hc := hdrive a rfl
      rw [dif_neg (by rw [hc]; exact Bool.false_ne_true), heq]
    case h_3 => rfl
  | a :: b :: c :: more =>
    have ha : a ≠ '/' := fun h => hslash (by rw [h]; exact mem_cons_self)
    have hc : c ≠ '/' := fun h => hslash
      (by rw [h]; exact mem_cons_of_mem _ (mem_cons_of_mem _ mem_cons_self))
    unfold splitRoot
    split
    case h_1 heq => exact absurd (List.cons.inj heq).1 ha
    case h_2 heq =>
      obtain ⟨-, htail⟩ := List.cons.inj heq
      obtain ⟨-, htail⟩ := List.cons.inj htail
      exact absurd (List.cons.inj htail).1 hc
    case h_3 => rfl

theorem splitRoot_of_not_mem {cs : List Char} (h : '/' ∉ cs) : splitRoot cs = (.start, cs) := by
  unfold splitRoot
  split
  case h_1 => exact absurd mem_cons_self h
  case h_2 =>
    exact absurd (mem_cons_of_mem _ (mem_cons_of_mem _ mem_cons_self)) h
  case h_3 => rfl

theorem splitRoot_relative (l : Place) (hroot : l.root = .start) (h : ¬ l.LooksRooted) :
    splitRoot (['/'].intercalate l.written) = (.start, ['/'].intercalate l.written) := by
  match hw : l.written with
  | [] => rfl
  | [seg] =>
    have hmem : seg ∈ l.written := by
      rw [hw]
      exact mem_singleton.mpr rfl
    have hone : ['/'].intercalate [seg] = seg := append_nil _
    rw [hone]
    exact splitRoot_of_not_mem (not_mem_written hmem)
  | first :: second :: more =>
    have hmem : first ∈ l.written := by
      rw [hw]
      exact mem_cons_self
    have htwo : ['/'].intercalate (first :: second :: more) =
        first ++ '/' :: ['/'].intercalate (second :: more) := by
      rw [intercalate_cons_cons, List.append_assoc]
      rfl
    rw [htwo]
    refine splitRoot_segments (ne_nil_of_mem_written hmem) (not_mem_written hmem) ?_
    rintro c rfl
    cases halpha : c.isAlpha with
    | false => rfl
    | true => exact absurd ⟨hroot, c, second, more, halpha, hw⟩ h

theorem splitRoot_text_place (l : Place) (h : ¬ l.LooksRooted) :
    splitRoot l.text = (l.root, ['/'].intercalate l.written) := by
  by_cases hroot : l.root = .start
  · have htext : l.text = ['/'].intercalate l.written := by
      rw [text, hroot]
      rfl
    rw [htext, hroot]
    exact splitRoot_relative l hroot h
  · exact splitRoot_text l.root hroot _

theorem place_text (l : Place) (h : ¬ l.LooksRooted) : place l.text = l := by
  rw [place, splitRoot_text_place l h]
  exact follow_segments_written l

theorem eq_start_of_text_eq_nil {l : Place} (h : l.text = []) : l = atRoot .start := by
  have hnot : ¬ l.LooksRooted := by
    rintro ⟨-, c, second, more, -, hw⟩
    rw [text, hw] at h
    cases (append_eq_nil_iff.mp h).2
  rw [← place_text l hnot, h]
  rfl

/-- **A place is where its text leads.** -/
theorem place_shown (l : Place) (h : ¬ l.LooksRooted) : place l.shown = l := by
  have htext := place_text l h
  unfold shown
  split
  case isTrue hnil =>
    rw [hnil] at htext
    exact htext
  case isFalse => exact htext

theorem mem_intercalate {segs : List (List Char)} {c : Char} (h : c ∈ ['/'].intercalate segs) :
    c = '/' ∨ ∃ seg ∈ segs, c ∈ seg := by
  match segs with
  | [] => cases h
  | [seg] =>
    rw [intercalate_singleton] at h
    exact Or.inr ⟨seg, mem_singleton.mpr rfl, h⟩
  | first :: second :: more =>
    rw [intercalate_cons_cons, List.append_assoc] at h
    rcases mem_append.mp h with hfirst | hrest
    · exact Or.inr ⟨first, mem_cons_self, hfirst⟩
    rcases mem_append.mp hrest with hslash | hmore
    · exact Or.inl (mem_singleton.mp hslash)
    rcases mem_intercalate hmore with hslash | ⟨seg, hseg, hc⟩
    · exact Or.inl hslash
    · exact Or.inr ⟨seg, mem_cons_of_mem _ hseg, hc⟩

theorem mem_shown {cs : List Char} {c : Char} (h : c ∈ (place cs).shown) :
    c = '.' ∨ c = '/' ∨ c ∈ cs := by
  have hsplit := text_splitRoot cs
  have hroot : (place cs).root = (splitRoot cs).1 := root_follow _ _
  have hseg : ∀ seg ∈ (place cs).written, c ∈ seg → c = '.' ∨ c ∈ cs := by
    intro seg hmem hc
    rcases mem_append.mp hmem with hup | hname
    · rw [eq_of_mem_replicate hup] at hc
      simp only [mem_cons, not_mem_nil, or_false, or_self] at hc
      exact Or.inl hc
    · obtain ⟨name, hin, rfl⟩ := List.mem_map.mp hname
      rcases mem_names_follow hin with hnil | hdown
      · cases hnil
      · obtain ⟨piece, hpiece, htext⟩ := List.mem_map.mp hdown
        have hval : piece = name.val := by
          unfold Segment.ofText at htext
          split at htext
          · cases htext
            rfl
          · split at htext <;> cases htext
        rw [← hval] at hc
        rw [← hsplit]
        exact Or.inr (mem_append_right _ (mem_of_mem_splitOn hpiece hc).1)
  unfold shown at h
  split at h
  case isTrue => exact Or.inl (mem_singleton.mp h)
  case isFalse =>
    rcases mem_append.mp h with hr | hw
    · rw [hroot] at hr
      rw [← hsplit]
      exact Or.inr (Or.inr (mem_append_left _ hr))
    · rcases mem_intercalate hw with hslash | ⟨seg, hmem, hc⟩
      · exact Or.inr (Or.inl hslash)
      · rcases hseg seg hmem hc with hdot | hcs
        · exact Or.inl hdot
        · exact Or.inr (Or.inr hcs)

theorem exists_text_eq {l : Place} (h : l.LooksRooted) :
    ∃ m : Place, ¬ m.LooksRooted ∧ m.text = l.text := by
  obtain ⟨hroot, c, second, more, halpha, hw⟩ := h
  obtain ⟨root, ups, names, rooted⟩ := l
  have hups : ups = 0 := by
    cases ups with
    | zero => rfl
    | succ n =>
      have hdot : ['.', '.'] = [c, ':'] := (List.cons.inj hw).1
      cases (List.cons.inj (List.cons.inj hdot).2).1
  subst hups
  have hnames : names.map Subtype.val = [c, ':'] :: second :: more := hw
  have hroot : root = .start := hroot
  subst hroot
  have htail : names.tail.map Subtype.val = second :: more := by
    rw [map_tail, hnames]
    rfl
  refine ⟨⟨.drive ⟨c, halpha⟩, 0, names.tail, fun _ => rfl⟩, ?_, ?_⟩
  · intro hm
    cases hm.1
  have hwritten : (⟨.drive ⟨c, halpha⟩, 0, names.tail, fun _ => rfl⟩ : Place).written =
      second :: more := htail
  rw [text, text, hw, hwritten, intercalate_cons_cons]
  rfl

theorem shown_place_shown (l : Place) : (place l.shown).shown = l.shown := by
  by_cases h : l.LooksRooted
  · obtain ⟨m, hm, htext⟩ := exists_text_eq h
    have hshown : m.shown = l.shown := by rw [shown, shown, htext]
    rw [← hshown, place_shown m hm]
  · rw [place_shown l h]

theorem shown_inj {l m : Place} (hl : ¬ l.LooksRooted) (hm : ¬ m.LooksRooted) :
    l.shown = m.shown ↔ l = m := by
  constructor
  · intro h
    rw [← place_shown l hl, ← place_shown m hm, h]
  · exact fun h => h ▸ rfl

theorem wellWritten_text (l : Place) : WellWritten l.text := by
  have hrooted (m : Place) (hm : ¬ m.LooksRooted) : WellWritten m.text := by
    unfold WellWritten
    rw [splitRoot_text_place m hm]
    dsimp only
    by_cases hw : m.written = []
    · refine Or.inl ?_
      rw [hw]
      rfl
    · refine Or.inr ⟨m.ups, m.names.map Subtype.val, ?_, fun name hname => ?_, m.rooted⟩
      · exact splitOn_intercalate '/' (fun seg hseg => not_mem_written hseg) hw
      · obtain ⟨n, -, rfl⟩ := List.mem_map.mp hname
        exact n.property
  by_cases h : l.LooksRooted
  · obtain ⟨m, hm, htext⟩ := exists_text_eq h
    rw [← htext]
    exact hrooted m hm
  · exact hrooted l h

/-! ### Directories -/

theorem segments_ne_nil (cs : List Char) : segments cs ≠ [] := fun h =>
  splitOn_ne_nil '/' cs (map_eq_nil_iff.mp h)

theorem place_eq_enter (cs : List Char) : place cs = (directory cs).enter (lastSegment cs) := by
  have hsplit : segments (splitRoot cs).2 =
      (segments (splitRoot cs).2).dropLast ++ [lastSegment cs] := by
    rw [lastSegment, getLastD_eq_getLast?, getLast?_eq_some_getLast (segments_ne_nil _),
      Option.getD_some, dropLast_append_getLast]
  rw [place, hsplit, follow_append]
  rfl

theorem splitRoot_eq_start {cs : List Char} (hslash : ∀ rest, cs ≠ '/' :: rest)
    (hdrive : ∀ c rest, c.isAlpha = true → cs ≠ c :: ':' :: '/' :: rest) :
    splitRoot cs = (.start, cs) := by
  unfold splitRoot
  split
  case h_1 rest => exact absurd rfl (hslash rest)
  case h_2 =>
    split
    case isTrue hc => exact absurd rfl (hdrive _ _ hc)
    case isFalse => rfl
  case h_3 => rfl

theorem exists_splitRoot (d : List Char) : ∃ root,
    (∀ x, splitRoot (d ++ '/' :: x) = (root, x)) ∨
      ∃ b, ∀ x, splitRoot (d ++ '/' :: x) = (root, b ++ '/' :: x) := by
  by_cases hslash : d.head? = some '/'
  · obtain ⟨b, rfl⟩ := head?_eq_some_iff.mp hslash
    exact ⟨.slash, Or.inr ⟨b, fun x => rfl⟩⟩
  by_cases hdrive : ∃ c b, c.isAlpha = true ∧ d = c :: ':' :: b ∧ (b = [] ∨ b.head? = some '/')
  · obtain ⟨c, b, hc, rfl, rfl | hb⟩ := hdrive
    · exact ⟨.drive ⟨c, hc⟩, Or.inl fun x => splitRoot_text (.drive ⟨c, hc⟩) (by simp) x⟩
    · obtain ⟨b, rfl⟩ := head?_eq_some_iff.mp hb
      exact ⟨.drive ⟨c, hc⟩, Or.inr ⟨b, fun x =>
        splitRoot_text (.drive ⟨c, hc⟩) (by simp) (b ++ '/' :: x)⟩⟩
  cases d with
  | nil => exact ⟨.slash, Or.inl fun x => rfl⟩
  | cons a d =>
    refine ⟨.start, Or.inr ⟨a :: d, fun x => splitRoot_eq_start ?_ ?_⟩⟩
    · intro rest heq
      have ha : a = '/' := (List.cons.inj heq).1
      exact hslash (by rw [ha]; rfl)
    · intro c rest hc heq
      obtain ⟨rfl, htail⟩ := List.cons.inj heq
      -- The slash of the drive is in front of the one that was put there, or it is that one.
      cases d with
      | nil => exact absurd (List.cons.inj htail).1 (by decide)
      | cons b d =>
        obtain ⟨rfl, hrest⟩ := List.cons.inj htail
        cases d with
        | nil => exact hdrive ⟨a, [], hc, rfl, Or.inl rfl⟩
        | cons e d =>
          obtain ⟨rfl, -⟩ := List.cons.inj hrest
          exact hdrive ⟨a, '/' :: d, hc, rfl, Or.inr rfl⟩

theorem place_slash_slash (d x : List Char) :
    place (d ++ '/' :: '/' :: x) = place (d ++ '/' :: x) := by
  have hnil : segments ('/' :: x) = segments [] ++ segments x := segments_append [] x
  obtain ⟨root, hroot | ⟨b, hroot⟩⟩ := exists_splitRoot d
  · rw [place, place, hroot, hroot]
    dsimp only
    rw [hnil, follow_append, follow_segments_nil]
  · rw [place, place, hroot, hroot]
    dsimp only
    rw [segments_append, segments_append, hnil, follow_append, follow_append, follow_append,
      follow_segments_nil]

/-- **What is put behind the directory of a path leads on from there.** -/
theorem place_append (d x : List Char) {last : List Char} (hlast : '/' ∉ last) :
    place (d ++ '/' :: x) = (directory (d ++ '/' :: last)).follow (segments x) := by
  obtain ⟨root, hroot | ⟨b, hroot⟩⟩ := exists_splitRoot d
  · rw [place, directory, hroot, hroot]
    dsimp only
    rw [segments_of_not_mem hlast]
    rfl
  · rw [place, directory, hroot, hroot]
    dsimp only
    rw [segments_append, segments_append, segments_of_not_mem hlast, dropLast_concat,
      follow_append]

theorem directory_of_not_mem {cs : List Char} (h : '/' ∉ cs) : directory cs = atRoot .start := by
  rw [directory, splitRoot_of_not_mem h]
  dsimp only
  rw [segments_of_not_mem h]
  rfl

theorem place_of_relative {cs : List Char} (h : (splitRoot cs).1 = .start) :
    place cs = (atRoot .start).follow (segments cs) := by
  have hrest := text_splitRoot cs
  rw [h] at hrest
  have hrest : (splitRoot cs).2 = cs := hrest
  rw [place, h, hrest]

end LexicalPath
