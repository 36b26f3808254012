import EdgeComputing.DeviceSdk.DeviceJson

/-!
Overrides of the configuration from the environment (config.c). One buffer holds the name that is
looked up, and each attempt rewrites it in place.
-/

namespace EdgeComputing.DeviceSdk

open List

def underscores (q : List Char) : List Char := q.map fun c => if c = '/' then '_' else c

def upper (q : List Char) : List Char := q.map fun c => if c.isLower then c.toUpper else c

def dashless (sname : List Char) : List Char := sname.map fun c => if c = '-' then '_' else c

section Override

variable (env : List Char → Option String) (sname : List Char)

/-- Whether a variable exists, the query as it is left, and the value. -/
def checkOverride (qstr : List Char) (val : String) : Bool × List Char × String :=
  let qstr := underscores qstr
  match env qstr with
  | some text => (true, qstr, text)
  | none =>
    let qstr := upper qstr
    match env qstr with
    | some text => (true, qstr, text)
    | none => (false, qstr, val)

/-- `none` is a write outside the buffer. -/
def strcpy (qsize : Nat) (src : List Char) : Option (List Char) :=
  if src.length < qsize then some src else none

def strcat (qsize : Nat) (query src : List Char) : Option (List Char) :=
  strcpy qsize (query ++ src)

/-- The loop that writes the service name over the start of the query. -/
def overwrite (query : List Char) : Option (List Char) :=
  if sname.length ≤ query.length then some (dashless sname ++ query.drop sname.length) else none

/-- One turn of the loop: the size of the buffer and the element. -/
def overrideElement (qsize : Nat) (iter : NvPair) : Option (Nat × NvPair) := do
  let name := iter.name.toList
  let req := name.length + sname.length + 2
  let qsize := if qsize < req then req else qsize
  let query ← strcpy qsize sname
  let query ← strcat qsize query ['_']
  let query ← strcat qsize query name
  let (found, query, value) := checkOverride env query iter.value
  if found then return (qsize, { iter with value })
  let query ← overwrite sname query
  let (found, _, value) := checkOverride env query iter.value
  if found then return (qsize, { iter with value })
  let query ← strcpy qsize name
  let (_, _, value) := checkOverride env query iter.value
  return (qsize, { iter with value })

def overrideFrom : Nat → List NvPair → Option (List NvPair)
  | _, [] => some []
  | qsize, iter :: config => do
    let (qsize, iter) ← overrideElement env sname qsize iter
    return iter :: (← overrideFrom qsize config)

def overrideConfig (config : List NvPair) : Option (List NvPair) := overrideFrom env sname 0 config

/-- The value of the first variable that exists under one of the names or its upper case. -/
def firstOf (names : List (List Char)) : Option String :=
  (names.flatMap fun q => [underscores q, upper (underscores q)]).findSome? env

/-- The documented search order. -/
def documented (name : List Char) : Option String :=
  firstOf env [sname ++ '_' :: name, dashless sname ++ '_' :: name, name]

/-- The search order of the code. -/
def searched (name : List Char) : Option String :=
  firstOf env [sname ++ '_' :: name, dashless sname ++ '_' :: upper (underscores name), name]

variable {env sname}

theorem checkOverride_some {qstr : List Char} {text : String} (h : firstOf env [qstr] = some text)
    (val : String) : ∃ query, checkOverride env qstr val = (true, query, text) := by
  cases h1 : env (underscores qstr) <;> cases h2 : env (upper (underscores qstr)) <;>
    simp_all [checkOverride, firstOf]

theorem checkOverride_none {qstr : List Char} (h : firstOf env [qstr] = none) (val : String) :
    checkOverride env qstr val = (false, upper (underscores qstr), val) := by
  simp_all [checkOverride, firstOf]

theorem overwrite_eq (name : List Char) :
    overwrite sname (upper (underscores (sname ++ '_' :: name))) =
      some (dashless sname ++ '_' :: upper (underscores name)) := by
  have hdrop : (upper (underscores (sname ++ '_' :: name))).drop sname.length =
      '_' :: upper (underscores name) := by
    simp [upper, underscores]
  rw [overwrite, if_pos (by simp [upper, underscores]), hdrop]

theorem firstOf_cons (q : List Char) (names : List (List Char)) :
    firstOf env (q :: names) = (firstOf env [q]).or (firstOf env names) := by
  simp only [firstOf, flatMap_cons, flatMap_nil, append_nil, findSome?_append]

variable (env sname)

theorem overrideElement_eq (qsize : Nat) (iter : NvPair) :
    ∃ qsize', overrideElement env sname qsize iter = some (qsize',
      { iter with value := (searched env sname iter.name.toList).getD iter.value }) := by
  have hcpy {size : Nat} {src : List Char} (h : src.length < size) : strcpy size src = some src :=
    if_pos h
  unfold overrideElement strcat searched
  generalize iter.name.toList = name
  dsimp only
  generalize hsize : (if qsize < name.length + sname.length + 2 then _ else qsize) = size
  have hreq : name.length + sname.length + 2 ≤ size := by split at hsize <;> omega
  have hquery : sname ++ ['_'] ++ name = sname ++ '_' :: name := by simp
  refine ⟨size, ?_⟩
  rw [firstOf_cons, firstOf_cons _ [name]]
  simp only [hcpy (show sname.length < size by omega), Option.bind_eq_bind, Option.bind_some,
    hcpy (show (sname ++ ['_']).length < size by simp; omega), hquery,
    hcpy (show (sname ++ '_' :: name).length < size by simp; omega),
    hcpy (show name.length < size by omega)]
  cases h1 : firstOf env [sname ++ '_' :: name] with
  | some text =>
    obtain ⟨query, hfound⟩ := checkOverride_some h1 iter.value
    simp [hfound]
  | none =>
    simp only [checkOverride_none h1, overwrite_eq, Bool.false_eq_true, if_false, Option.bind_some]
    cases h2 : firstOf env [dashless sname ++ '_' :: upper (underscores name)] with
    | some text =>
      obtain ⟨query, hfound⟩ := checkOverride_some h2 iter.value
      simp [hfound]
    | none =>
      simp only [checkOverride_none h2, Bool.false_eq_true, if_false]
      cases h3 : firstOf env [name] with
      | some text =>
        obtain ⟨query, hfound⟩ := checkOverride_some h3 iter.value
        simp [hfound]
      | none => simp [checkOverride_none h3]

theorem overrideFrom_eq (qsize : Nat) (config : List NvPair) :
    overrideFrom env sname qsize config = some (config.map fun iter =>
      { iter with value := (searched env sname iter.name.toList).getD iter.value }) := by
  induction config generalizing qsize with
  | nil => rfl
  | cons iter config ih =>
    obtain ⟨qsize', heq⟩ := overrideElement_eq env sname qsize iter
    simp [overrideFrom, heq, ih]

end Override

end EdgeComputing.DeviceSdk
