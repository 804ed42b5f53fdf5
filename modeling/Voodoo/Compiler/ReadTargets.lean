import Voodoo.Compiler.Embeds
import Voodoo.Lib.Scoped

/-!
# What the generated readers read into

The lines `EmitReadInto` and its relatives write, as far as they open and close scopes,
declare variables and read.  Each read passes the address of a target, an expression put
together on the way down a type; its C++ type is looked up where the line stands.

A `CageVector<bool>` is a `std::vector<bool>`, whose elements have no address.  Where no
type has one in it, every target has the type its reader wants (`reads_typed_iff`).
-/

namespace Voodoo.Compiler

open Scoped List

/-! ### Generated lines -/

/-- A variable: one of the source, or a generated one with its `uid`. -/
inductive Ident where
  | source (name : String)
  | generated (stem : String) (uid : Nat)
  deriving DecidableEq

inductive Lvalue where
  | var (x : Ident)
  /-- `out->name`. -/
  | member (f : StructField)
  /-- `(base)[i]`. -/
  | index (base : Lvalue) (i : Ident)

inductive Action where
  /-- `ReadScalar`, `ReadString` or the `Read` of a struct or union, all of which take a
  `type*`. -/
  | read (type : CppType) (target : Lvalue)
  | checkKnown (x : Ident)
  | assign (target : Lvalue)
  | resize (target : Lvalue) (n : Ident)
  | clear (target : Lvalue)
  | emplace (target : Lvalue) (key value : Ident)

abbrev Code := List (Line Ident CppType Action)

def bool : CppType := .scalar .bool

def uint32 : CppType := .scalar .uint32

def int32 : CppType := .scalar .int32

def readScalar (type : CppType) (x : Ident) : Line Ident CppType Action := .act (.read type (.var x))

/-! ### `EmitReadInto` -/

/-- `EmitHandleReadInto`. -/
def emitHandleReadInto (kind : HandleKind) (target : Lvalue) : Code :=
  let iid := Ident.source "wvc_iid"
  let version := Ident.source "wvc_version"
  match kind with
  | .pendingAssociatedRemote => block [.declare iid uint32, .declare version uint32,
      readScalar uint32 iid, readScalar uint32 version, .act (.assign target)]
  | .pendingAssociatedReceiver =>
    block [.declare iid uint32, readScalar uint32 iid, .act (.assign target)]
  | .pendingRemote =>
    block [.declare version uint32, readScalar uint32 version, .act (.assign target)]
  | _ => [.act (.assign target)]

/-- `EmitReadInto`, with the `uid` it leaves. -/
def emitReadInto (enumExtensible : String → Bool) : TypeSpec → Lvalue → Nat → Code × Nat
  | .handle kind _ _, target, uid => (emitHandleReadInto kind target, uid)
  | .nullable (.handle kind _ _), target, uid =>
    let has := Ident.generated "wvc_has" uid
    (block (.declare has bool :: readScalar bool has :: block (emitHandleReadInto kind target)),
      uid + 1)
  | .nullable nonNull, target, uid =>
    let has := Ident.generated "wvc_has" uid
    let tmp := Ident.generated "wvc_opt" uid
    let (code, next) := emitReadInto enumExtensible nonNull (.var tmp) (uid + 1)
    (block (.declare has bool :: readScalar bool has ::
      (block (.declare tmp (cppValueType nonNull) :: (code ++ [.act (.assign target)])) ++
        block [.act (.assign target)])), next)
  | .string, target, uid => ([.act (.read .string target)], uid)
  | .ref .enum _ r, target, uid =>
    let tmp := Ident.generated "wvc_v" uid
    (.declare tmp int32 :: readScalar int32 tmp ::
      ((if enumExtensible r.name then [] else [.act (.checkKnown tmp)]) ++ [.act (.assign target)]),
      uid + 1)
  | .ref kind _ r, target, uid => ([.act (.read (.named kind r) target)], uid)
  | .array element fixedArraySize, target, uid =>
    let i := Ident.generated "wvc_i" uid
    let n := Ident.generated "wvc_n" uid
    let (code, next) := emitReadInto enumExtensible element (.index target i) (uid + 1)
    let loop := block (.declare i uint32 :: code)
    (block (if fixedArraySize = 0 then
        .declare n uint32 :: readScalar uint32 n :: .act (.resize target n) :: loop
      else loop), next)
  | .map key element, target, uid =>
    let n := Ident.generated "wvc_n" uid
    let i := Ident.generated "wvc_i" uid
    let k := Ident.generated "wvc_k" uid
    let v := Ident.generated "wvc_v" uid
    let (keyCode, middle) := emitReadInto enumExtensible key (.var k) (uid + 1)
    let (code, next) := emitReadInto enumExtensible element (.var v) middle
    (block (.declare n uint32 :: readScalar uint32 n :: .act (.clear target) ::
      block (.declare i uint32 :: .declare k (cppValueType key) :: (keyCode ++
        .declare v (cppValueType element) :: (code ++ [.act (.emplace target k v)])))), next)
  | .scalar kind, target, uid => ([.act (.read (.scalar kind) target)], uid)

/-! ### The functions around it -/

/-- `EmitStructIO`, the reader. -/
def emitReadFields (enumExtensible : String → Bool) : List StructField → Nat → Code
  | [], _ => []
  | f :: fields, uid =>
    let (code, next) := emitReadInto enumExtensible f.type (.member f) uid
    (if f.minVersion = 0 then code else block code) ++ emitReadFields enumExtensible fields next

/-- `WireFieldOrder`. -/
def StructDecl.wireFields (s : StructDecl) : List StructField :=
  StableOrder.sortBy (·.minVersion.toNat) s.fields

def emitStructReader (enumExtensible : String → Bool) (s : StructDecl) : Code :=
  .declare (.source "wvc_num_bytes") uint32 :: .declare (.source "wvc_version") uint32 ::
    emitReadFields enumExtensible s.wireFields 0

/-- `EmitUnionIO`, the reader. -/
def emitUnionReader (enumExtensible : String → Bool) (u : UnionDecl) : Code :=
  .declare (.source "wvc_union_size") uint32 :: readScalar uint32 (.source "wvc_union_size") ::
    .declare (.source "wvc_tag") int32 :: readScalar int32 (.source "wvc_tag") ::
    u.fields.flatMap (fun f => block (.declare (.source "wvc_v") (cppValueType f.type) ::
      (emitReadInto enumExtensible f.type (.var (.source "wvc_v")) 0).1))

/-- What a handle parameter is put together from. -/
def handleParts (kind : HandleKind) (name : String) : Code :=
  let iid := Ident.source (name ++ "_iid")
  let version := Ident.source (name ++ "_version")
  match kind with
  | .pendingAssociatedRemote => [.declare iid uint32, .declare version uint32,
      readScalar uint32 iid, readScalar uint32 version]
  | .pendingAssociatedReceiver => [.declare iid uint32, readScalar uint32 iid]
  | .pendingRemote => [.declare version uint32, readScalar uint32 version]
  | _ => []

/-- `EmitTopReadParam` of a handle. -/
def emitTopReadHandle (kind : HandleKind) (nullable : Bool) (cppType : CppType) (name : String) :
    Code :=
  let present := Ident.source (name ++ "_present")
  if nullable then
    .declare present bool :: readScalar bool present :: .declare (.source name) cppType ::
      block (handleParts kind name ++ [.act (.assign (.var (.source name)))])
  else handleParts kind name ++ [.declare (.source name) cppType]

/-- `EmitTopReadParam`, for one parameter after the other. -/
def emitReadParams (enumExtensible : String → Bool) : List Param → Nat → Code
  | [], _ => []
  | p :: params, uid =>
    match p.type with
    | .handle kind _ _ =>
      emitTopReadHandle kind false (cppValueType p.type) p.name ++
        emitReadParams enumExtensible params uid
    | .nullable (.handle kind _ _) =>
      emitTopReadHandle kind true (cppValueType p.type) p.name ++
        emitReadParams enumExtensible params uid
    | _ =>
      let (code, next) := emitReadInto enumExtensible p.type (.var (.source p.name)) uid
      .declare (.source p.name) (cppValueType p.type) :: (code ++
        emitReadParams enumExtensible params next)

/-! ### Types of targets -/

/-- The declared type of what the target names, where it has an address. -/
def Lvalue.type (Γ : Scopes Ident CppType) : Lvalue → Option CppType
  | .var x => lookup Γ x
  | .member f => some (cppValueType f.type)
  | .index base _ =>
    match base.type Γ with
    | some (.stdArray element _) => some element
    | some (.cageVector element) => if element = bool then none else some element
    | _ => none

/-- A read gets a pointer of the type it takes. -/
def Typed (Γ : Scopes Ident CppType) : Action → Prop
  | .read type target => target.type Γ = some type
  | _ => True

/-- There is no `array<bool>` in the type. -/
def TypeSpec.addressable : TypeSpec → Bool
  | .array element fixedArraySize =>
    !(fixedArraySize = 0 && element = .scalar .bool) && element.addressable
  | .map key element => key.addressable && element.addressable
  | .nullable t => t.addressable
  | _ => true

/-! ### Names -/

/-- A generated variable with `uid` or a later number. -/
def Ident.Since (uid : Nat) : Ident → Prop
  | .source _ => False
  | .generated _ n => uid ≤ n

theorem Ident.since_self {stem : String} {uid : Nat} : (Ident.generated stem uid).Since uid :=
  Nat.le_refl uid

theorem source_not_since {name : String} {uid : Nat} : ¬(Ident.source name).Since uid := not_false

theorem Ident.Since.mono {uid uid' : Nat} (h : uid' ≤ uid) (x : Ident) (hx : x.Since uid) :
    x.Since uid' := by
  cases x with
  | source name => exact hx
  | generated stem n => exact Nat.le_trans h hx

/-- The target was put together before `uid`. -/
def Lvalue.Before (uid : Nat) : Lvalue → Prop
  | .var x => ¬x.Since uid
  | .member _ => True
  | .index base _ => base.Before uid

section

variable {Γ : Scopes Ident CppType} {code : Code} {target : Lvalue} {uid uid' : Nat}

theorem Lvalue.Before.mono (h : uid ≤ uid') (ht : target.Before uid) : target.Before uid' := by
  induction target with
  | var x => exact fun hx => ht (hx.mono h)
  | member f => trivial
  | index base i ih => exact ih ht

theorem type_after (hcode : Adds (Ident.Since uid) code) (hΓ : Γ ≠ []) (ht : target.Before uid) :
    target.type (after code Γ) = target.type Γ := by
  induction target with
  | var x => exact hcode.lookup_after hΓ ht
  | member f => rfl
  | index base i ih =>
    unfold Lvalue.type
    rw [ih ht]

theorem type_enter : target.type ([] :: Γ) = target.type Γ := by
  induction target with
  | var x => rfl
  | member f => rfl
  | index base i ih =>
    unfold Lvalue.type
    rw [ih]

theorem type_declare {x : Ident} {t : CppType} (hx : x.Since uid) (hΓ : Γ ≠ [])
    (ht : target.Before uid) :
    target.type ((Line.declare x t : Line Ident CppType Action).after Γ) = target.type Γ :=
  type_after (Adds.nil.declare hx) hΓ ht

/-! ### What a read leaves in scope -/

theorem adds_handleRead {p : Ident → Prop} (kind : HandleKind) (target : Lvalue) :
    Adds p (emitHandleReadInto kind target) := by
  have hall (code : List (Line Ident CppType Action)) : Adds (fun _ => True) code → Adds p (block code) :=
    fun h => h.block
  cases kind with
  | pendingAssociatedRemote => exact hall _ (((Adds.nil.act).act.act).declare trivial |>.declare trivial)
  | pendingAssociatedReceiver => exact hall _ ((Adds.nil.act.act).declare trivial)
  | pendingRemote => exact hall _ ((Adds.nil.act.act).declare trivial)
  | _ => exact Adds.nil.act

theorem emitReadInto_nullable (ext : String → Bool) {t : TypeSpec} {target : Lvalue} {uid : Nat}
    (ht : ¬∃ kind spelled r, t = .handle kind spelled r) :
    emitReadInto ext (.nullable t) target uid =
      (block (.declare (.generated "wvc_has" uid) bool :: readScalar bool (.generated "wvc_has" uid) ::
        (block (.declare (.generated "wvc_opt" uid) (cppValueType t) ::
          ((emitReadInto ext t (.var (.generated "wvc_opt" uid)) (uid + 1)).1 ++
            [.act (.assign target)])) ++ block [.act (.assign target)])),
        (emitReadInto ext t (.var (.generated "wvc_opt" uid)) (uid + 1)).2) := by
  cases t with
  | handle kind spelled r => exact absurd ⟨kind, spelled, r, rfl⟩ ht
  | _ => rfl

theorem emitReadInto_adds (ext : String → Bool) (t : TypeSpec) (target : Lvalue) (uid : Nat) :
    uid ≤ (emitReadInto ext t target uid).2 ∧
      Adds (Ident.Since uid) (emitReadInto ext t target uid).1 := by
  induction t generalizing target uid with
  | scalar kind => exact ⟨Nat.le_refl _, Adds.nil.act⟩
  | string => exact ⟨Nat.le_refl _, Adds.nil.act⟩
  | ref kind spelled r =>
    cases kind with
    | enum =>
      refine ⟨Nat.le_succ _, Adds.declare Ident.since_self (Adds.act (Adds.append ?_ Adds.nil.act))⟩
      split
      · exact Adds.nil
      · exact Adds.nil.act
    | struct => exact ⟨Nat.le_refl _, Adds.nil.act⟩
    | union => exact ⟨Nat.le_refl _, Adds.nil.act⟩
  | handle kind spelled r => exact ⟨Nat.le_refl _, adds_handleRead kind target⟩
  | array element size ih =>
    obtain ⟨hle, hadds⟩ := ih (.index target (.generated "wvc_i" uid)) (uid + 1)
    have hloop : Adds (Ident.Since uid) (block (.declare (.generated "wvc_i" uid) uint32 ::
        (emitReadInto ext element (.index target (.generated "wvc_i" uid)) (uid + 1)).1)) :=
      (hadds.mono (Ident.Since.mono (Nat.le_succ uid)) |>.declare Ident.since_self).block
    refine ⟨Nat.le_of_succ_le hle, Adds.block (q := Ident.Since uid) ?_⟩
    split
    · exact hloop.act.act.declare Ident.since_self
    · exact hloop
  | map key element ihk ihe =>
    obtain ⟨hlek, haddsk⟩ := ihk (.var (.generated "wvc_k" uid)) (uid + 1)
    obtain ⟨hlee, haddse⟩ := ihe (.var (.generated "wvc_v" uid))
      (emitReadInto ext key (.var (.generated "wvc_k" uid)) (uid + 1)).2
    refine ⟨Nat.le_of_succ_le (Nat.le_trans hlek hlee), Adds.block (q := Ident.Since uid) ?_⟩
    refine Adds.declare Ident.since_self (Adds.act (Adds.act ?_))
    refine Adds.block (q := Ident.Since uid) ?_
    refine Adds.declare Ident.since_self (Adds.declare Ident.since_self ?_)
    refine (haddsk.mono (Ident.Since.mono (Nat.le_succ uid))).append ?_
    refine Adds.declare Ident.since_self (Adds.append ?_ Adds.nil.act)
    exact haddse.mono (Ident.Since.mono (Nat.le_of_succ_le hlek))
  | nullable t ih =>
    by_cases ht : ∃ kind spelled r, t = .handle kind spelled r
    · obtain ⟨kind, spelled, r, rfl⟩ := ht
      refine ⟨Nat.le_succ _, Adds.block (q := Ident.Since uid) ?_⟩
      exact ((adds_handleRead kind target).block (q := Ident.Since uid)).act.declare Ident.since_self
    · rw [emitReadInto_nullable ext ht]
      obtain ⟨hle, hadds⟩ := ih (.var (.generated "wvc_opt" uid)) (uid + 1)
      refine ⟨Nat.le_of_succ_le hle, Adds.block (q := Ident.Since uid) ?_⟩
      refine Adds.declare Ident.since_self (Adds.act (Adds.append ?_ ?_))
      · refine Adds.block (q := Ident.Since uid) (Adds.declare Ident.since_self ?_)
        exact (hadds.mono (Ident.Since.mono (Nat.le_succ uid))).append Adds.nil.act
      · exact Adds.block (q := Ident.Since uid) Adds.nil.act

/-! ### Every target has the type that is read -/

theorem type_declared {x : Ident} {t : CppType} :
    (Lvalue.var x).type ((Line.declare x t : Line Ident CppType Action).after Γ) = some t :=
  lookup_declare

theorem holds_readScalar {type : CppType} {x : Ident} {rest : Code} :
    Holds Typed (readScalar type x :: rest) ((Line.declare x type : Line Ident CppType Action).after Γ) ↔
      Holds Typed rest ((Line.declare x type : Line Ident CppType Action).after Γ) := by
  rw [readScalar, holds_act]
  exact and_iff_right lookup_declare

theorem holds_resize {n : Ident} {rest : Code} :
    Holds Typed (.act (.resize target n) :: rest) Γ ↔ Holds Typed rest Γ := and_iff_right trivial

theorem holds_clear {rest : Code} :
    Holds Typed (.act (.clear target) :: rest) Γ ↔ Holds Typed rest Γ := and_iff_right trivial

theorem holds_handleRead (kind : HandleKind) : Holds Typed (emitHandleReadInto kind target) Γ := by
  cases kind with
  | pendingAssociatedRemote => exact holds_block.mpr ⟨rfl, rfl, trivial, trivial⟩
  | pendingAssociatedReceiver => exact holds_block.mpr ⟨rfl, trivial, trivial⟩
  | pendingRemote => exact holds_block.mpr ⟨rfl, trivial, trivial⟩
  | _ => exact ⟨trivial, trivial⟩

theorem cppValueType_eq_bool {t : TypeSpec} : cppValueType t = bool ↔ t = .scalar .bool := by
  constructor
  · intro h
    cases t with
    | scalar kind =>
      cases h
      rfl
    | array element size =>
      unfold cppValueType at h
      split at h <;> cases h
    | nullable t => cases t <;> cases h
    | _ => cases h
  · rintro rfl
    rfl

theorem type_index {element : TypeSpec} {size : Nat} {i : Ident}
    (h : target.type Γ = some (cppValueType (.array element size))) :
    (Lvalue.index target i).type Γ =
      if size = 0 ∧ element = .scalar .bool then none else some (cppValueType element) := by
  unfold Lvalue.type
  rw [h, cppValueType]
  by_cases hsize : size = 0
  · rw [if_neg (Nat.not_lt.mpr (Nat.le_of_eq hsize))]
    by_cases hbool : element = .scalar .bool
    · rw [if_pos ⟨hsize, hbool⟩]
      exact if_pos (cppValueType_eq_bool.mpr hbool)
    · rw [if_neg (fun h => hbool h.2)]
      exact if_neg (fun h => hbool (cppValueType_eq_bool.mp h))
  · rw [if_pos (Nat.pos_of_ne_zero hsize), if_neg (fun h => hsize h.1)]

theorem after_ne_nil {x : Ident} {t : CppType} (Γ : Scopes Ident CppType) :
    (Line.declare x t : Line Ident CppType Action).after Γ ≠ [] := by
  cases Γ with
  | nil => exact cons_ne_nil _ _
  | cons frame Γ => exact cons_ne_nil _ _

theorem emitReadInto_typed_iff (ext : String → Bool) (t : TypeSpec)
    (htype : target.type Γ = some (cppValueType t)) (ht : target.Before uid) (hΓ : Γ ≠ []) :
    Holds Typed (emitReadInto ext t target uid).1 Γ ↔ t.addressable = true := by
  induction t generalizing target uid Γ with
  | scalar kind => exact iff_of_true ⟨htype, trivial⟩ rfl
  | string => exact iff_of_true ⟨htype, trivial⟩ rfl
  | ref kind spelled r =>
    cases kind with
    | enum =>
      refine iff_of_true (holds_readScalar.mpr (holds_append.mpr ⟨?_, trivial, trivial⟩)) rfl
      split
      · trivial
      · exact ⟨trivial, trivial⟩
    | struct => exact iff_of_true ⟨htype, trivial⟩ rfl
    | union => exact iff_of_true ⟨htype, trivial⟩ rfl
  | handle kind spelled r => exact iff_of_true (holds_handleRead kind) rfl
  | array element size ih =>
    have hloop (Γ' : Scopes Ident CppType) (h : target.type Γ' = target.type Γ) (hΓ' : Γ' ≠ []) :
        Holds Typed (block (.declare (.generated "wvc_i" uid) uint32 ::
          (emitReadInto ext element (.index target (.generated "wvc_i" uid)) (uid + 1)).1)) Γ' ↔
        (TypeSpec.array element size).addressable = true := by
      rw [holds_block, holds_declare]
      have htarget : target.type ((Line.declare (.generated "wvc_i" uid) uint32 :
          Line Ident CppType Action).after ([] :: Γ')) = some (cppValueType (.array element size)) := by
        rw [type_declare Ident.since_self (cons_ne_nil _ _) ht, type_enter, h, htype]
      have hindex := type_index (i := .generated "wvc_i" uid) htarget
      by_cases hbool : size = 0 ∧ element = .scalar .bool
      · -- the address of a proxy is taken
        rw [if_pos hbool] at hindex
        obtain ⟨rfl, rfl⟩ := hbool
        refine iff_of_false (fun hread => ?_) (by decide)
        have hsome := hindex.symm.trans hread.1
        cases hsome
      · rw [if_neg hbool] at hindex
        rw [ih hindex (ht.mono (Nat.le_succ uid)) (after_ne_nil _)]
        have hnot : (decide (size = 0) && decide (element = .scalar .bool)) = false := by
          rw [← Bool.decide_and]
          exact decide_eq_false hbool
        rw [TypeSpec.addressable, hnot, Bool.not_false, Bool.true_and]
    show Holds Typed (block (if size = 0 then _ else _)) Γ ↔ _
    rw [holds_block]
    by_cases hsize : size = 0
    · rw [if_pos hsize, holds_declare, holds_readScalar, holds_resize]
      refine hloop _ ?_ (after_ne_nil _)
      rw [type_declare Ident.since_self (cons_ne_nil _ _) ht, type_enter]
    · rw [if_neg hsize]
      exact hloop _ type_enter (cons_ne_nil _ _)
  | map key element ihk ihe =>
    obtain ⟨hmiddle, hkey⟩ := emitReadInto_adds ext key (.var (.generated "wvc_k" uid)) (uid + 1)
    show Holds Typed (block _) Γ ↔ _
    rw [holds_block, holds_declare, holds_readScalar, holds_clear, holds_block, holds_declare,
      holds_declare, holds_append, holds_declare, holds_append]
    have hk : ¬(Ident.generated "wvc_k" uid).Since (uid + 1) := Nat.not_succ_le_self uid
    have hv : ¬(Ident.generated "wvc_v" uid).Since
        (emitReadInto ext key (.var (.generated "wvc_k" uid)) (uid + 1)).2 := Nat.not_le.mpr hmiddle
    rw [ihk type_declared hk (after_ne_nil _), ihe type_declared hv (after_ne_nil _),
      TypeSpec.addressable, Bool.and_eq_true]
    exact and_congr_right' (and_iff_left ⟨trivial, trivial⟩)
  | nullable t ih =>
    by_cases hhandle : ∃ kind spelled r, t = .handle kind spelled r
    · obtain ⟨kind, spelled, r, rfl⟩ := hhandle
      refine iff_of_true (holds_block.mpr ?_) rfl
      rw [holds_declare, holds_readScalar, holds_block]
      exact holds_handleRead kind
    · rw [emitReadInto_nullable ext hhandle]
      have hopt : ¬(Ident.generated "wvc_opt" uid).Since (uid + 1) := Nat.not_succ_le_self uid
      rw [holds_block, holds_declare, holds_readScalar, holds_append, holds_block, holds_declare,
        holds_append, ih type_declared hopt (after_ne_nil _), TypeSpec.addressable]
      refine (and_iff_left ?_).trans (and_iff_left ⟨trivial, trivial⟩)
      exact holds_block.mpr ⟨trivial, trivial⟩

/-! ### Whole readers -/

theorem emitReadFields_typed_iff (ext : String → Bool) (fields : List StructField) (hΓ : Γ ≠ []) :
    Holds Typed (emitReadFields ext fields uid) Γ ↔ ∀ f ∈ fields, f.type.addressable = true := by
  induction fields generalizing uid Γ with
  | nil => exact iff_of_true trivial (fun f hf => absurd hf not_mem_nil)
  | cons f fields ih =>
    obtain ⟨-, hadds⟩ := emitReadInto_adds ext f.type (.member f) uid
    have hread (Γ' : Scopes Ident CppType) (hΓ' : Γ' ≠ []) :
        Holds Typed (emitReadInto ext f.type (.member f) uid).1 Γ' ↔ f.type.addressable = true :=
      emitReadInto_typed_iff ext f.type rfl trivial hΓ'
    show Holds Typed ((if f.minVersion = 0 then _ else _) ++ _) Γ ↔ _
    rw [holds_append, forall_mem_cons]
    by_cases hversion : f.minVersion = 0
    · rw [if_pos hversion, hread Γ hΓ, ih (hadds.after_ne_nil hΓ)]
    · rw [if_neg hversion, holds_block, hread _ (cons_ne_nil _ _), hadds.after_block, ih hΓ]

theorem emitStructReader_typed_iff (ext : String → Bool) (s : StructDecl) :
    Holds Typed (emitStructReader ext s) Γ ↔ ∀ f ∈ s.fields, f.type.addressable = true := by
  rw [emitStructReader, holds_declare, holds_declare,
    emitReadFields_typed_iff ext s.wireFields (after_ne_nil _)]
  refine forall_congr' (fun f => ?_)
  rw [StructDecl.wireFields, StableOrder.mem_sortBy]

theorem emitUnionReader_typed_iff (ext : String → Bool) (u : UnionDecl) :
    Holds Typed (emitUnionReader ext u) Γ ↔ ∀ f ∈ u.fields, f.type.addressable = true := by
  have hcases (fields : List UnionField) (Γ : Scopes Ident CppType) :
      Holds Typed (fields.flatMap (fun f => block (.declare (.source "wvc_v") (cppValueType f.type) ::
        (emitReadInto ext f.type (.var (.source "wvc_v")) 0).1))) Γ ↔
      ∀ f ∈ fields, f.type.addressable = true := by
    induction fields with
    | nil => exact iff_of_true trivial (fun f hf => absurd hf not_mem_nil)
    | cons f fields ih =>
      obtain ⟨-, hadds⟩ := emitReadInto_adds ext f.type (.var (.source "wvc_v")) 0
      have hcase : Adds (fun _ => True) (.declare (.source "wvc_v") (cppValueType f.type) ::
          (emitReadInto ext f.type (.var (.source "wvc_v")) 0).1) :=
        (hadds.mono (fun _ _ => trivial)).declare trivial
      rw [flatMap_cons, holds_append, hcase.after_block, ih, holds_block, holds_declare,
        emitReadInto_typed_iff ext f.type type_declared source_not_since (after_ne_nil _),
        forall_mem_cons]
  rw [emitUnionReader, holds_declare, holds_readScalar, holds_declare, holds_readScalar, hcases]

theorem lookup_declare_declare {x y : Ident} {t : CppType} :
    lookup ((Line.declare y t : Line Ident CppType Action).after
      ((Line.declare x t : Line Ident CppType Action).after Γ)) x = some t := by
  by_cases h : y = x
  · subst h
    exact lookup_declare
  · obtain ⟨frame, Γ', he⟩ := exists_cons_of_ne_nil (after_ne_nil (x := x) (t := t) Γ)
    have hskip : lookup ((Line.declare y t : Line Ident CppType Action).after
        ((Line.declare x t : Line Ident CppType Action).after Γ)) x =
        lookup ((Line.declare x t : Line Ident CppType Action).after Γ) x := by
      have hnew : ∀ b ∈ [(y, t)], b.1 ≠ x := by
        intro b hb
        rw [mem_singleton.mp hb]
        exact h
      rw [he]
      exact lookup_append_of_forall_ne hnew
    rw [hskip]
    exact lookup_declare

theorem holds_handleParts (kind : HandleKind) (name : String) {rest : Code}
    (hrest : ∀ Γ, Holds Typed rest Γ) : Holds Typed (handleParts kind name ++ rest) Γ := by
  cases kind with
  | pendingAssociatedRemote => exact ⟨lookup_declare_declare, lookup_declare, hrest _⟩
  | pendingAssociatedReceiver => exact ⟨lookup_declare, hrest _⟩
  | pendingRemote => exact ⟨lookup_declare, hrest _⟩
  | _ => exact hrest _

theorem adds_handleParts (kind : HandleKind) (name : String) {rest : Code}
    (hrest : Adds (fun _ => True) rest) :
    Adds (fun _ => True) (handleParts kind name ++ rest) := by
  cases kind with
  | pendingAssociatedRemote => exact hrest.act.act.declare trivial |>.declare trivial
  | pendingAssociatedReceiver => exact hrest.act.declare trivial
  | pendingRemote => exact hrest.act.declare trivial
  | _ => exact hrest

theorem emitTopReadHandle_typed (kind : HandleKind) (nullable : Bool) (cppType : CppType)
    (name : String) : Holds Typed (emitTopReadHandle kind nullable cppType name) Γ := by
  cases nullable with
  | false => exact holds_handleParts kind name (fun _ => trivial)
  | true =>
    refine holds_readScalar.mpr (holds_declare.mpr (holds_block.mpr ?_))
    exact holds_handleParts kind name (fun _ => ⟨trivial, trivial⟩)

theorem emitTopReadHandle_adds (kind : HandleKind) (nullable : Bool) (cppType : CppType)
    (name : String) : Adds (fun _ => True) (emitTopReadHandle kind nullable cppType name) := by
  cases nullable with
  | false => exact adds_handleParts kind name (Adds.nil.declare trivial)
  | true =>
    have hblock : Adds (fun _ => True) (block (handleParts kind name ++
        [.act (.assign (.var (.source name)))])) := (adds_handleParts kind name Adds.nil.act).block
    exact (hblock.declare trivial).act.declare trivial

theorem emitReadParams_typed_iff (ext : String → Bool) (params : List Param) (hΓ : Γ ≠ []) :
    Holds Typed (emitReadParams ext params uid) Γ ↔ ∀ p ∈ params, p.type.addressable = true := by
  induction params generalizing uid Γ with
  | nil => exact iff_of_true trivial (fun p hp => absurd hp not_mem_nil)
  | cons p params ih =>
    have hhandle (kind : HandleKind) (nullable : Bool) (hp : p.type.addressable = true)
        (he : emitReadParams ext (p :: params) uid =
          emitTopReadHandle kind nullable (cppValueType p.type) p.name ++
            emitReadParams ext params uid) :
        Holds Typed (emitReadParams ext (p :: params) uid) Γ ↔
          ∀ q ∈ p :: params, q.type.addressable = true := by
      rw [he, holds_append, ih ((emitTopReadHandle_adds kind _ _ _).after_ne_nil hΓ),
        forall_mem_cons]
      exact and_congr_left' (iff_of_true (emitTopReadHandle_typed kind _ _ _) hp)
    have hvalue (he : emitReadParams ext (p :: params) uid =
        .declare (.source p.name) (cppValueType p.type) ::
          ((emitReadInto ext p.type (.var (.source p.name)) uid).1 ++
            emitReadParams ext params (emitReadInto ext p.type (.var (.source p.name)) uid).2)) :
        Holds Typed (emitReadParams ext (p :: params) uid) Γ ↔
          ∀ q ∈ p :: params, q.type.addressable = true := by
      obtain ⟨-, hadds⟩ := emitReadInto_adds ext p.type (.var (.source p.name)) uid
      rw [he, holds_declare, holds_append,
        emitReadInto_typed_iff ext p.type type_declared source_not_since (after_ne_nil _),
        ih (hadds.after_ne_nil (after_ne_nil _)), forall_mem_cons]
    obtain ⟨type, name, minVersion, ordinal, hasExplicitOrdinal, enableIf⟩ := p
    cases type with
    | handle kind spelled r => exact hhandle kind false rfl rfl
    | nullable t =>
      cases t with
      | handle kind spelled r => exact hhandle kind true rfl rfl
      | _ => exact hvalue rfl
    | _ => exact hvalue rfl

end

/-- In every reader each target has the type that is read, if there is no `array<bool>` in a type
that is read, and only then. -/
theorem reads_typed_iff (enumExtensible : String → Bool) :
    (∀ s : StructDecl, Holds Typed (emitStructReader enumExtensible s) [[]] ↔
      ∀ f ∈ s.fields, f.type.addressable = true) ∧
    (∀ u : UnionDecl, Holds Typed (emitUnionReader enumExtensible u) [[]] ↔
      ∀ f ∈ u.fields, f.type.addressable = true) ∧
    ∀ params : List Param, Holds Typed (emitReadParams enumExtensible params 0) [[]] ↔
      ∀ p ∈ params, p.type.addressable = true :=
  ⟨fun s => emitStructReader_typed_iff enumExtensible s,
    fun u => emitUnionReader_typed_iff enumExtensible u,
    fun params => emitReadParams_typed_iff enumExtensible params (cons_ne_nil _ _)⟩

/-- `struct S { array<bool> flags; };`. -/
def flags : StructDecl where
  name := "S"
  fields := [{ type := .array (.scalar .bool) 0, name := "flags" }]

theorem not_reads_typed_flags :
    ¬Holds Typed (emitStructReader (fun _ => false) flags) [[]] := by
  rintro ⟨-, -, hread, -⟩
  cases hread

end Voodoo.Compiler
