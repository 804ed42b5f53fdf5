import Voodoo.Compiler.Names

/-!
# Headers

`CollectDeclaredNames` sees a file as the list of its `headers`: the pairs of adjacent
names of which the first is `struct`, `union` or `enum`, each with the body it stands
in.  Every table it builds is read off that list: a set has the names of the headers of
its kind, and a container map the body of the last one.

`Covers ts ts' H` says of a part of the token list that the scan finds the headers `H`
in it and leaves it in the body it entered it in.
-/

namespace Voodoo.Compiler

open List

/-! ### The list of headers -/

/-- `owner` is the struct or interface whose body the header stands in, `""` for none. -/
structure Header where
  kind : RefKind
  name : String
  owner : String
  deriving DecidableEq

def RefKind.ofKeyword? (keyword : String) : Option RefKind :=
  if keyword = "struct" then some .struct
  else if keyword = "union" then some .union
  else if keyword = "enum" then some .enum
  else none

def Scan.header? (s : Scan) (token : Token) (next : Option Token) : Option Header := do
  let name ← headerName? token next
  let kind ← RefKind.ofKeyword? token.text
  return ⟨kind, name, s.owner⟩

/-- The headers that a scan in state `s` finds in `tokens`. -/
def headersFrom : List Token → Scan → List Header
  | [], _ => []
  | token :: tokens, s =>
    (s.header? token tokens.head?).toList ++ headersFrom tokens (s.step token tokens.head?)

def headers (tokens : List Token) : List Header := headersFrom tokens {}

/-! ### The tables -/

namespace DeclaredNames

def add (names : DeclaredNames) (h : Header) : DeclaredNames :=
  match h.kind with
  | .struct => names.declare "struct" h.name h.owner
  | .union => names.declare "union" h.name h.owner
  | .enum => names.declare "enum" h.name h.owner

/-- The set, the container map and the member sets of one kind. -/
def ofKind (names : DeclaredNames) : RefKind → List String
  | .struct => names.structs
  | .union => names.unions
  | .enum => names.enums

def container (names : DeclaredNames) : RefKind → StringMap String
  | .struct => names.structContainer
  | .union => names.unionContainer
  | .enum => names.enumContainer

def nested (names : DeclaredNames) : RefKind → StringMap String
  | .struct => names.containerStructs
  | .union => names.containerUnions
  | .enum => names.containerEnums

theorem ofKind_add (names : DeclaredNames) (h : Header) (kind : RefKind) :
    (names.add h).ofKind kind =
      if h.kind = kind then h.name :: names.ofKind kind else names.ofKind kind := by
  obtain ⟨k, name, owner⟩ := h
  cases k <;> cases kind <;> simp [add, ofKind, declare]

theorem container_add (names : DeclaredNames) (h : Header) (kind : RefKind) :
    (names.add h).container kind =
      if h.kind = kind then (h.name, h.owner) :: names.container kind
      else names.container kind := by
  obtain ⟨k, name, owner⟩ := h
  cases k <;> cases kind <;> simp [add, container, declare]

end DeclaredNames

namespace Scan

theorem names_step (s : Scan) (token : Token) (next : Option Token) :
    (s.step token next).names = ((s.header? token next).toList).foldl DeclaredNames.add s.names := by
  unfold step header?
  cases headerName? token next with
  | none =>
    simp only [Option.bind_eq_bind, Option.bind_none, Option.toList_none, foldl_nil]
    split
    · rfl
    · split <;> rfl
  | some name =>
    by_cases hs : token.text = "struct"
    · simp [RefKind.ofKeyword?, DeclaredNames.add, hs]
    · by_cases hu : token.text = "union"
      · simp [RefKind.ofKeyword?, DeclaredNames.add, hu]
      · by_cases he : token.text = "enum"
        · simp [RefKind.ofKeyword?, DeclaredNames.add, he]
        · simp [RefKind.ofKeyword?, DeclaredNames.declare, hs, hu, he]

theorem names_run (tokens : List Token) (s : Scan) :
    (run tokens s).names = (headersFrom tokens s).foldl DeclaredNames.add s.names := by
  induction tokens generalizing s with
  | nil => rfl
  | cons token tokens ih => rw [run, ih, headersFrom, foldl_append, names_step]

end Scan

theorem collectDeclaredNames_eq (tokens : List Token) :
    collectDeclaredNames tokens = (headers tokens).foldl DeclaredNames.add {} :=
  Scan.names_run tokens {}

/-- The last header of a kind and a name. -/
def lastHeader (hs : List Header) (kind : RefKind) (name : String) : Option Header :=
  hs.reverse.find? (fun h => h.kind = kind ∧ h.name = name)

section

variable {hs : List Header} {names : DeclaredNames} {kind : RefKind} {name container : String}

theorem lastHeader_cons (h : Header) :
    lastHeader (h :: hs) kind name =
      (lastHeader hs kind name).or (if h.kind = kind ∧ h.name = name then some h else none) := by
  rw [lastHeader, reverse_cons, find?_append]
  by_cases hk : h.kind = kind ∧ h.name = name
  · simp [hk, lastHeader]
  · simp [hk, lastHeader]

theorem mem_ofKind_foldl :
    name ∈ (hs.foldl DeclaredNames.add names).ofKind kind ↔
      name ∈ names.ofKind kind ∨ ∃ h ∈ hs, h.kind = kind ∧ h.name = name := by
  induction hs generalizing names with
  | nil => simp
  | cons h hs ih =>
    rw [foldl_cons, ih, DeclaredNames.ofKind_add]
    by_cases hk : h.kind = kind
    · simp [hk, eq_comm, or_assoc, or_left_comm]
    · simp [hk]

theorem lookup_container_foldl :
    ((hs.foldl DeclaredNames.add names).container kind).lookup name =
      ((lastHeader hs kind name).map (·.owner)).or ((names.container kind).lookup name) := by
  induction hs generalizing names with
  | nil => simp [lastHeader]
  | cons h hs ih =>
    rw [foldl_cons, ih, DeclaredNames.container_add, lastHeader_cons]
    by_cases hk : h.kind = kind ∧ h.name = name
    · simp [hk]
    · by_cases hk' : h.kind = kind
      · have hn : ¬h.name = name := fun hn => hk ⟨hk', hn⟩
        simp [hk', hn, List.lookup_cons, beq_eq_false_iff_ne.mpr (Ne.symm hn)]
      · simp [hk']

theorem mem_ofKind {tokens : List Token} :
    name ∈ (collectDeclaredNames tokens).ofKind kind ↔
      ∃ h ∈ headers tokens, h.kind = kind ∧ h.name = name := by
  rw [collectDeclaredNames_eq, mem_ofKind_foldl]
  refine or_iff_right ?_
  cases kind <;> exact not_mem_nil

theorem lookup_container {tokens : List Token} :
    ((collectDeclaredNames tokens).container kind).lookup name =
      (lastHeader (headers tokens) kind name).map (·.owner) := by
  rw [collectDeclaredNames_eq, lookup_container_foldl]
  cases kind <;> exact Option.or_none

end

/-! ### Parts of the token list -/

/-- Between `ts` and its part `ts'` the scan finds the headers `H`, which stand in the body it is
in, and it is in the same body after them. -/
def Covers (ts ts' : List Token) (H : String → List Header) : Prop :=
  ∀ s : Scan, ∃ s' found, headersFrom ts s = found ++ headersFrom ts' s' ∧
    s'.containerStack = s.containerStack ∧ ∀ h ∈ H s.owner, h ∈ found

/-- The header a declaration `keyword name` in the body of `owner` is. -/
def declarationHeader (keyword name owner : String) : List Header :=
  ((RefKind.ofKeyword? keyword).map (⟨·, name, owner⟩)).toList

namespace Covers

variable {ts ts' ts'' : List Token} {H K : String → List Header}

theorem refl (ts : List Token) : Covers ts ts (fun _ => []) :=
  fun s => ⟨s, [], rfl, rfl, fun _ h => h⟩

theorem trans (h : Covers ts ts' H) (h' : Covers ts' ts'' K) :
    Covers ts ts'' (fun owner => H owner ++ K owner) := by
  intro s
  obtain ⟨s₁, found₁, hf₁, hs₁, hH⟩ := h s
  obtain ⟨s₂, found₂, hf₂, hs₂, hK⟩ := h' s₁
  refine ⟨s₂, found₁ ++ found₂, by rw [hf₁, hf₂, List.append_assoc], hs₂.trans hs₁, ?_⟩
  intro h hh
  rcases mem_append.mp hh with hh | hh
  · exact mem_append_left _ (hH h hh)
  · refine mem_append_right _ (hK h ?_)
    rwa [Scan.owner, hs₁]

theorem mono (h : Covers ts ts' H) (hsub : ∀ owner, K owner ⊆ H owner) : Covers ts ts' K := by
  intro s
  obtain ⟨s', found, hf, hs, hH⟩ := h s
  exact ⟨s', found, hf, hs, fun h hh => hH h (hsub _ hh)⟩

theorem step {t : Token} (hl : t.type ≠ .lBrace) (hr : t.type ≠ .rBrace) (ts : List Token) :
    Covers (t :: ts) ts (fun _ => []) := by
  intro s
  refine ⟨s.step t ts.head?, _, rfl, ?_, fun _ h => absurd h not_mem_nil⟩
  unfold Scan.step
  split
  · rfl
  · rw [if_neg hl, if_neg hr]

theorem headerName?_eq {keyword name : Token} (hk : keyword.type = .name)
    (hkw : keyword.text ∈ headerKeywords) (hn : name.type = .name) :
    headerName? keyword (some name) = some name.text := by
  simp [headerName?, hk, hkw, hn]

theorem header {keyword name : Token} (hk : keyword.type = .name)
    (hkw : keyword.text ∈ headerKeywords) (hn : name.type = .name) (ts : List Token) :
    Covers (keyword :: name :: ts) (name :: ts)
      (declarationHeader keyword.text name.text) := by
  intro s
  refine ⟨s.step keyword (some name), _, rfl, ?_, ?_⟩
  · simp [Scan.step, headerName?_eq hk hkw hn]
  · intro h hh
    obtain ⟨kind, hkind, rfl⟩ := by simpa [declarationHeader] using hh
    simp [Scan.header?, headerName?_eq hk hkw hn, hkind]

theorem braces {lb rb : Token} (hl : lb.type = .lBrace) (hr : rb.type = .rBrace)
    (h : Covers ts (rb :: ts') H) : Covers (lb :: ts) ts' (fun _ => []) := by
  intro s
  have hlb : headerName? lb ts.head? = none := by simp [headerName?, hl]
  have hrb : headerName? rb ts'.head? = none := by simp [headerName?, hr]
  obtain ⟨s', found, hf, hs, -⟩ := h (s.step lb ts.head?)
  refine ⟨s'.step rb ts'.head?, found, ?_, ?_, fun _ h => absurd h not_mem_nil⟩
  · rw [headersFrom, hf, headersFrom]
    simp [Scan.header?, hlb, hrb]
  · rw [Scan.step, hrb]
    simp [hr, hs, Scan.step, hlb, hl]

theorem declaration {keyword name lb rb : Token} (hk : keyword.type = .name)
    (hkw : keyword.text ∈ headerKeywords) (hn : name.type = .name) (hl : lb.type = .lBrace)
    (hr : rb.type = .rBrace) (h : Covers ts (rb :: ts') H) :
    Covers (keyword :: name :: lb :: ts) ts' (fun owner =>
      declarationHeader keyword.text name.text owner ++
        H (if keyword.text = "struct" ∨ keyword.text = "interface" then name.text else "")) := by
  intro s
  have hkn := headerName?_eq hk hkw hn
  have hnl : headerName? name (some lb) = none := by simp [headerName?, hl]
  have hlb : headerName? lb ts.head? = none := by simp [headerName?, hl]
  have hrb : headerName? rb ts'.head? = none := by simp [headerName?, hr]
  -- The scan as it enters the body.
  let s₁ := s.step keyword (some name)
  let s₃ := s₁.step lb ts.head?
  have hs₂ : s₁.step name (some lb) = s₁ := by simp [Scan.step, hnl, hn]
  have hs₃ : s₃.containerStack =
      (if keyword.text = "struct" ∨ keyword.text = "interface" then name.text else "") ::
        s.containerStack := by
    simp [s₃, s₁, Scan.step, hlb, hl, hkn]
  obtain ⟨s', found, hf, hs, hH⟩ := h s₃
  refine ⟨s'.step rb ts'.head?, (s.header? keyword (some name)).toList ++ found, ?_, ?_, ?_⟩
  · have h₁ : headersFrom (keyword :: name :: lb :: ts) s =
        (s.header? keyword (some name)).toList ++ headersFrom ts s₃ := by
      simp only [headersFrom, head?_cons]
      rw [show s.step keyword (some name) = s₁ from rfl, hs₂]
      simp [Scan.header?, hnl, hlb, s₃]
    rw [h₁, hf, headersFrom, List.append_assoc]
    simp [Scan.header?, hrb]
  · rw [Scan.step, hrb]
    simp [hr, hs, hs₃]
  · intro h hh
    rcases mem_append.mp hh with hh | hh
    · obtain ⟨kind, hkind, rfl⟩ := by simpa [declarationHeader] using hh
      simp [Scan.header?, hkn, hkind]
    · refine mem_append_right _ (hH h ?_)
      rwa [Scan.owner, hs₃]

end Covers

theorem Covers.mem_headers {ts ts' : List Token} {H : String → List Header} (h : Covers ts ts' H)
    {x : Header} (hx : x ∈ H "") : x ∈ headers ts := by
  obtain ⟨s', found, hf, -, hH⟩ := h {}
  rw [headers, hf]
  exact mem_append_left _ (hH x hx)

end Voodoo.Compiler
