/-!
# `Conf.NvList` — name/value lists and `compare_nvlist`

An nvlist is a finite sequence of uniquely named, typed elements. `compare_nvlist` walks the first list,
looks every element up in the second one by name **and** type, compares the two values with the comparator
of that type, and finally walks the second list to see that it has no element the first one lacks.
-/

namespace Bmd

mutual

/-- A typed value of an nvlist. Descriptors are compared as integers, a binary is its bytes. -/
inductive NvValue where
  | null
  | bool (b : Bool)
  | number (n : Nat)
  | string (s : String)
  | nvlist (l : NvList)
  | descriptor (fd : Int)
  | binary (bytes : List UInt8)
  | boolArray (bs : List Bool)
  | numberArray (ns : List Nat)
  | stringArray (ss : List String)
  | nvlistArray (ls : NvLists)
  | descriptorArray (fds : List Int)

/-- An error-free nvlist: its elements in insertion order. -/
inductive NvList where
  | nil
  | cons (name : String) (value : NvValue) (rest : NvList)

/-- An array of nvlists. -/
inductive NvLists where
  | nil
  | cons (head : NvList) (rest : NvLists)

end

/-- The type tag of a value (`NV_TYPE_*`). -/
inductive NvType where
  | null | bool | number | string | nvlist | descriptor | binary
  | boolArray | numberArray | stringArray | nvlistArray | descriptorArray
  deriving DecidableEq, Repr

/-- The type of a value. -/
def NvValue.type : NvValue → NvType
  | .null => .null
  | .bool _ => .bool
  | .number _ => .number
  | .string _ => .string
  | .nvlist _ => .nvlist
  | .descriptor _ => .descriptor
  | .binary _ => .binary
  | .boolArray _ => .boolArray
  | .numberArray _ => .numberArray
  | .stringArray _ => .stringArray
  | .nvlistArray _ => .nvlistArray
  | .descriptorArray _ => .descriptorArray

namespace NvList

/-- `nvlist_get_*`: the first element with the given name and type. -/
def find? (k : String) (t : NvType) : NvList → Option NvValue
  | .nil => none
  | .cons name v rest => if name = k ∧ v.type = t then some v else find? k t rest

/-- `nvlist_exists_type`. -/
def existsType (l : NvList) (k : String) (t : NvType) : Bool := (l.find? k t).isSome

/-- `nvlist_get_string`, with `none` for the missing element (on which libnv aborts the process). -/
def getString? (l : NvList) (k : String) : Option String :=
  match l.find? k .string with
  | some (.string s) => some s
  | _ => none

/-- The names of the elements. -/
def names : NvList → List String
  | .nil => []
  | .cons name _ rest => name :: names rest

/-- `nvlist_add_*`: append an element. -/
def add (k : String) (v : NvValue) : NvList → NvList
  | .nil => .cons k v .nil
  | .cons name w rest => .cons name w (add k v rest)

/-- `nvlist_take_*`: the list without the first element with the given name and type. -/
def erase (k : String) (t : NvType) : NvList → NvList
  | .nil => .nil
  | .cons name v rest => if name = k ∧ v.type = t then rest else .cons name v (erase k t rest)

end NvList

/-- The array of the given nvlists. -/
def NvLists.ofList : List NvList → NvLists
  | [] => .nil
  | l :: ls => .cons l (NvLists.ofList ls)

/-! ## The scalar comparators -/

/-- `CMP(a, b)`. -/
def cmp (a b : Int) : Int := if a < b then -1 else if a = b then 0 else 1

/-- `strcmp`: the difference of the first two bytes that differ, with `0` after the end of a string. -/
def strcmpL : List Char → List Char → Int
  | [], [] => 0
  | [], b :: _ => -(b.toNat : Int)
  | a :: _, [] => a.toNat
  | a :: as, b :: bs => if a = b then strcmpL as bs else (a.toNat : Int) - b.toNat

/-- `strcmp` (a string's characters stand for its bytes). -/
def strcmp (a b : String) : Int := strcmpL a.toList b.toList

/-- The loop of the array comparators: the first difference found, then the lengths. -/
def cmpArray {α : Type} (c : α → α → Int) : List α → List α → Int
  | [], [] => 0
  | [], _ :: _ => -1
  | _ :: _, [] => 1
  | a :: as, b :: bs => if c a b ≠ 0 then c a b else cmpArray c as bs

/-- The second loop of `compare_nvlist`: every element of `b` must have a namesake of its type in `a`. -/
def compareNvlistSecond (a : NvList) : NvList → Int
  | .nil => 0
  | .cons k v rest => if a.existsType k v.type then compareNvlistSecond a rest else -1

mutual

/-- The comparators `compare_nvlist_*`, for two values of the same type. -/
def compareNvValue : NvValue → NvValue → Int
  | .null, _ => 0
  | .bool a, .bool b => (a.toNat : Int) - b.toNat
  | .number a, .number b => cmp a b
  | .string a, .string b => strcmp a b
  | .nvlist a, .nvlist b =>
    let rc := compareNvlistFirst a b
    if rc ≠ 0 then rc else compareNvlistSecond a b
  | .descriptor a, .descriptor b => cmp a b
  | .binary a, .binary b => cmpArray (fun x y => (x.toNat : Int) - y.toNat) a b
  | .boolArray a, .boolArray b => cmpArray (fun x y => cmp x.toNat y.toNat) a b
  | .numberArray a, .numberArray b => cmpArray (fun (x y : Nat) => cmp x y) a b
  | .stringArray a, .stringArray b => cmpArray strcmp a b
  | .nvlistArray a, .nvlistArray b => compareNvlistArray a b
  | .descriptorArray a, .descriptorArray b => cmpArray cmp a b
  | _, _ => 0

/-- The first loop of `compare_nvlist`: every element of `a` is looked up in `b` and compared. -/
def compareNvlistFirst : NvList → NvList → Int
  | .nil, _ => 0
  | .cons k v rest, b =>
    match b.find? k v.type with
    | none => 1
    | some w =>
      let rc := compareNvValue v w
      if rc ≠ 0 then rc else compareNvlistFirst rest b

/-- `compare_nvlist_nvlist_array`. -/
def compareNvlistArray : NvLists → NvLists → Int
  | .nil, .nil => 0
  | .nil, .cons _ _ => -1
  | .cons _ _, .nil => 1
  | .cons a as, .cons b bs =>
    -- `compare_nvlist` on the two heads
    let rc := compareNvlistFirst a b
    let rc := if rc ≠ 0 then rc else compareNvlistSecond a b
    if rc ≠ 0 then rc else compareNvlistArray as bs

end

/-- `compare_nvlist` on two existing, error-free lists. -/
def compareNvlist (a b : NvList) : Int :=
  let rc := compareNvlistFirst a b
  if rc ≠ 0 then rc else compareNvlistSecond a b

/-! ## C strings -/

/-- `strcasecmp`. -/
def strcasecmp (a b : String) : Int := strcmpL (a.toList.map Char.toLower) (b.toList.map Char.toLower)

/-- What a `char *` stands for: the text up to the first NUL. -/
def cstr (s : String) : String := String.ofList (s.toList.takeWhile (· != '\x00'))

/-- `strncmp(val, p, strlen(p)) == 0 && val[strlen(p)] == ':'`, with the text behind the colon. -/
def afterType (p val : String) : Option String :=
  if (p.toList ++ [':']).isPrefixOf val.toList then some (String.ofList (val.toList.drop (p.toList.length + 1))) else none

/-- The texts before and behind the first `c` (`strchr`). -/
def cutAt (c : Char) (val : String) : Option (String × String) :=
  if val.toList.contains c then
    some (String.ofList (val.toList.takeWhile (· != c)), String.ofList ((val.toList.dropWhile (· != c)).drop 1))
  else none

/-- `dirname(3)` of an absolute path without double or trailing slashes. -/
def dirname (path : String) : String :=
  match ((path.toList.reverse.dropWhile (· != '/')).drop 1).reverse with
  | [] => "/"
  | dir => String.ofList dir

end Bmd
