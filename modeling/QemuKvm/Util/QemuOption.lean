import QemuKvm.Json.Parser

/-!
# Option lists (qemu-option.c)

A `QemuOptsList` holds descriptors and a list of `QemuOpts`; a `QemuOpts`
holds an optional id and its options, each a `QemuOpt` with a name, its
string `str` (`none` for NULL), an optional descriptor and a typed `value`
(`boolean` for BOOL, `uint` for NUMBER and SIZE) that `qemu_opt_parse`
fills from `str`.

What changes the options of a `QemuOpts`:

* `opt_set` (`qemu_opt_set`, `qemu_opt_set_err`) looks the name up among the
  descriptors (an empty table takes any name), appends the option with
  `str` set to the value given and parses it; a failed parse takes the
  option out again;
* `qemu_opt_set_bool` appends an option with `value.boolean` set and no
  string;
* `qemu_opt_reset` (the CloudClone addition used by `clone_disk`) replaces
  the string of the last option of that name and nothing else;
* `qemu_opts_do_parse` runs `opt_set` on each `name=value` or flag of a
  parameter string; `qemu_opts_from_qdict` on each entry of a dictionary;
* `qemu_opts_validate` attaches descriptors to the options of a list that
  had none and parses each of them.

`qemu_opts_parse` finds the id of a parameter string with `strstr` for
`,id=` before it parses the string; a value can hold `,,id=` with its comma
doubled, which the parse reads as part of the value.

C strings are lists of characters. The C library's `strtoull` and `strtod`
are parameters of the parsers that use them; `(uint64_t) sizef` is
`Float.toUInt64`, which saturates where C's conversion is undefined.
-/

namespace QemuKvm.Opts

open QemuKvm.Json

/-- `enum QemuOptType`. -/
inductive QemuOptType
  | string
  | bool
  | number
  | size
deriving DecidableEq, Repr

/-- `QemuOptDesc`. -/
structure QemuOptDesc where
  name : List Char
  type : QemuOptType
deriving DecidableEq, Repr

/-- The union `value` of a `QemuOpt`: every reader asserts the descriptor type
that selects its member. -/
structure QemuOptValue where
  boolean : Bool
  uint : UInt64
deriving DecidableEq, Repr

/-- `QemuOpt`. -/
structure QemuOpt where
  name : List Char
  str : Option (List Char)
  desc : Option QemuOptDesc
  value : QemuOptValue
deriving DecidableEq, Repr

/-- `QemuOpts`: the id and the options, head first. -/
structure QemuOpts where
  id : Option (List Char)
  head : List QemuOpt
deriving DecidableEq, Repr

/-- `QemuOptsList`. -/
structure QemuOptsList where
  name : List Char
  impliedOptName : Option (List Char)
  mergeLists : Bool
  desc : List QemuOptDesc
  head : List QemuOpts
deriving DecidableEq, Repr

/-- What `QERR_INVALID_PARAMETER_VALUE` says was expected. -/
inductive Expected
  | onOrOff
  | aNumber
  | aSize
  | anIdentifier
deriving DecidableEq, Repr

/-- The errors of this file: `QERR_INVALID_PARAMETER`,
`QERR_INVALID_PARAMETER_VALUE` and `QERR_DUPLICATE_ID`. -/
inductive QError
  | invalidParameter (name : List Char)
  | invalidParameterValue (name : List Char) (expected : Expected)
  | duplicateId (id listName : List Char)
deriving DecidableEq, Repr

/-! ## Typed values -/

section Parse

variable (strtoull : List Char → UInt64 × List Char) (strtod : List Char → Float × List Char)

/-- `parse_option_bool`: a missing value is `on`. -/
def parseOptionBool (name : List Char) : Option (List Char) → Except QError Bool
  | some v =>
    if v = "on".toList then .ok true
    else if v = "off".toList then .ok false
    else .error (.invalidParameterValue name .onOrOff)
  | none => .ok true

/-- `parse_option_number`: `strtoull(value, &postfix, 0)` must read the whole
value. -/
def parseOptionNumber (name : List Char) : Option (List Char) → Except QError UInt64
  | some v =>
    match strtoull v with
    | (number, endptr) =>
      if endptr ≠ [] then .error (.invalidParameterValue name .aNumber) else .ok number
  | none => .error (.invalidParameterValue name .aNumber)

/-- How many times the suffix after the number multiplies it by 1024, in
the fall-through `switch (*postfix)` of `parse_option_size`; only the first
character after the number is looked at. -/
def sizeSuffixShift : Option Char → Option ℕ
  | some 'T' => some 4
  | some 'G' => some 3
  | some 'M' => some 2
  | some 'K' => some 1
  | some 'k' => some 1
  | some 'b' => some 0
  | none => some 0
  | some _ => none

/-- `sizef *= 1024`, `k` times. -/
def mul1024 : ℕ → Float → Float
  | 0, f => f
  | k + 1, f => mul1024 k (f * 1024)

/-- `parse_option_size`. -/
def parseOptionSize (name : List Char) : Option (List Char) → Except QError UInt64
  | some v =>
    match strtod v with
    | (sizef, endptr) =>
      match sizeSuffixShift endptr.head? with
      | some k => .ok (mul1024 k sizef).toUInt64
      | none => .error (.invalidParameterValue name .aSize)
  | none => .error (.invalidParameterValue name .aSize)

/-- `qemu_opt_parse`: fills the member of `value` the descriptor's type
selects from `str`; an option without descriptor, or a STRING one, is left
as it is. -/
def qemuOptParse (opt : QemuOpt) : Except QError QemuOpt :=
  match opt.desc with
  | none => .ok opt
  | some d =>
    match d.type with
    | .string => .ok opt
    | .bool => (parseOptionBool opt.name opt.str).map fun b =>
        { opt with value := { opt.value with boolean := b } }
    | .number => (parseOptionNumber strtoull opt.name opt.str).map fun n =>
        { opt with value := { opt.value with uint := n } }
    | .size => (parseOptionSize strtod opt.name opt.str).map fun n =>
        { opt with value := { opt.value with uint := n } }

end Parse

/-! ## Finding and setting options -/

/-- The descriptor of that name, as
`for (i = 0; desc[i].name != NULL; i++)` finds it. -/
def findDesc (desc : List QemuOptDesc) (name : List Char) : Option QemuOptDesc :=
  desc.find? fun d => d.name = name

/-- The descriptor lookup `opt_set` and `qemu_opt_set_bool` share: an unknown
name is an error unless the table is empty. -/
def lookupDesc (desc : List QemuOptDesc) (name : List Char) :
    Except QError (Option QemuOptDesc) :=
  match findDesc desc name with
  | some d => .ok (some d)
  | none => if desc = [] then .ok none else .error (.invalidParameter name)

/-- An option as `g_malloc0` and the setters make it. -/
def newOpt (name : List Char) (str : Option (List Char)) (desc : Option QemuOptDesc)
    (value : QemuOptValue) : QemuOpt :=
  { name, str, desc, value }

section Set

variable (strtoull : List Char → UInt64 × List Char) (strtod : List Char → Float × List Char)

/-- `opt_set`: the option goes in at the head or the tail with `str` the
value given, and is parsed; one that fails to parse is deleted again. -/
def optSet (desc : List QemuOptDesc) (opts : QemuOpts) (name : List Char)
    (value : Option (List Char)) (prepend : Bool) : Except QError QemuOpts := do
  let d ← lookupDesc desc name
  let opt ← qemuOptParse strtoull strtod (newOpt name value d ⟨false, 0⟩)
  return { opts with head := if prepend then opt :: opts.head else opts.head ++ [opt] }

/-- `qemu_opt_set`. -/
def qemuOptSet (desc : List QemuOptDesc) (opts : QemuOpts) (name : List Char)
    (value : Option (List Char)) : Except QError QemuOpts :=
  optSet strtoull strtod desc opts name value false

/-- `qemu_opt_set_err`. -/
def qemuOptSetErr (desc : List QemuOptDesc) (opts : QemuOpts) (name : List Char)
    (value : Option (List Char)) : Except QError QemuOpts :=
  optSet strtoull strtod desc opts name value false

end Set

/-- `qemu_opt_set_bool`: the option goes in at the tail with `value.boolean`
set and no string. -/
def qemuOptSetBool (desc : List QemuOptDesc) (opts : QemuOpts) (name : List Char) (val : Bool) :
    Except QError QemuOpts := do
  let d ← lookupDesc desc name
  return { opts with head := opts.head ++ [newOpt name none d ⟨val, 0⟩] }

/-- `qemu_opt_find`: the last option of that name (`QTAILQ_FOREACH_REVERSE`). -/
def qemuOptFind (opts : QemuOpts) (name : List Char) : Option QemuOpt :=
  opts.head.reverse.find? fun opt => opt.name = name

/-- Change the last element that satisfies `p`. -/
def updateLast {α : Type*} (p : α → Bool) (f : α → α) : List α → List α
  | [] => []
  | a :: l => if l.any p then a :: updateLast p f l else if p a then f a :: l else a :: l

/-- `qemu_opt_reset`: gives the options and the return value, 0 when an
option of that name was found and its string replaced, 1 when none was. -/
def qemuOptReset (opts : QemuOpts) (name : List Char) (value : Option (List Char)) :
    QemuOpts × ℤ :=
  match qemuOptFind opts name with
  | some _ =>
    let head := updateLast (fun opt => opt.name = name) (fun opt => { opt with str := value })
      opts.head
    ({ opts with head }, 0)
  | none => (opts, 1)

/-- `qemu_opt_get`. -/
def qemuOptGet (opts : QemuOpts) (name : List Char) : Option (List Char) :=
  (qemuOptFind opts name).bind QemuOpt.str

/-- The typed getters: the default without such an option, the member of
`value` after `assert(opt->desc && opt->desc->type == type)`, `none` when
the assertion fails. -/
def qemuOptGetTyped {β : Type} (type : QemuOptType) (member : QemuOptValue → β)
    (opts : QemuOpts) (name : List Char) (defval : β) : Option β :=
  match qemuOptFind opts name with
  | none => some defval
  | some opt => if opt.desc.map QemuOptDesc.type = some type then some (member opt.value) else none

/-- `qemu_opt_get_bool`. -/
def qemuOptGetBool (opts : QemuOpts) (name : List Char) (defval : Bool) : Option Bool :=
  qemuOptGetTyped .bool QemuOptValue.boolean opts name defval

/-- `qemu_opt_get_number`. -/
def qemuOptGetNumber (opts : QemuOpts) (name : List Char) (defval : UInt64) : Option UInt64 :=
  qemuOptGetTyped .number QemuOptValue.uint opts name defval

/-- `qemu_opt_get_size`. -/
def qemuOptGetSize (opts : QemuOpts) (name : List Char) (defval : UInt64) : Option UInt64 :=
  qemuOptGetTyped .size QemuOptValue.uint opts name defval

/-- The bytes of a C string. -/
def cstrBytes (s : List Char) : List UInt8 := s.map fun c => c.toNat.toUInt8

/-- `qemu_opts_to_qdict` into an existing dictionary (or `qdict_new()` for
NULL): the id, then every option's string as a `QString`; `none` where
`qstring_from_str` is handed a NULL string. -/
def qemuOptsToQdict (opts : QemuOpts) (qdict : Option (List (List UInt8 × QObject))) :
    Option (List (List UInt8 × QObject)) :=
  let qdict := qdict.getD []
  let qdict := match opts.id with
    | some id => qdictPut qdict (cstrBytes "id".toList) (.qstring (cstrBytes id))
    | none => qdict
  opts.head.foldlM (fun d opt =>
    opt.str.map fun s => qdictPut d (cstrBytes opt.name) (.qstring (cstrBytes s))) qdict

/-! ## Parameter strings -/

/-- The loop of `get_opt_name`: the characters up to `delim` or the end of
the string, and the string from the delimiter on. -/
def getOptNameLoop (delim : Char) : List Char → List Char × List Char
  | [] => ([], [])
  | c :: p =>
    if c = delim then ([], c :: p)
    else
      let r := getOptNameLoop delim p
      (c :: r.1, r.2)

/-- `get_opt_name(buf, buf_size, p, delim)`: the name, cut to `buf_size - 1`
characters, and where the scan stopped. -/
def getOptName (bufSize : ℕ) (p : List Char) (delim : Char) : List Char × List Char :=
  let r := getOptNameLoop delim p
  (r.1.take (bufSize - 1), r.2)

/-- The loop of `get_opt_value`: up to a single comma or the end, with `,,`
read as one comma; and the string from that comma on. -/
def getOptValueLoop : List Char → List Char × List Char
  | [] => ([], [])
  | ',' :: ',' :: p =>
    let r := getOptValueLoop p
    (',' :: r.1, r.2)
  | ',' :: p => ([], ',' :: p)
  | c :: p =>
    let r := getOptValueLoop p
    (c :: r.1, r.2)

/-- `get_opt_value(buf, buf_size, p)`: the value, cut to `buf_size - 1`
characters, and where the scan stopped. -/
def getOptValue (bufSize : ℕ) (p : List Char) : List Char × List Char :=
  let r := getOptValueLoop p
  (r.1.take (bufSize - 1), r.2)

/-- `strstr(haystack, needle)`: the haystack from the first place the needle
starts at. -/
def strstr (needle : List Char) : List Char → Option (List Char)
  | [] => if needle = [] then some [] else none
  | c :: h => if needle.isPrefixOf (c :: h) then some (c :: h) else strstr needle h

/-- `!pe || (pc && pc < pe)` for `pe = strchr(p, '=')` and
`pc = strchr(p, ',')`: the next option is a flag (or the implied first
option) rather than `name=value`. -/
def flagForm (p : List Char) : Bool :=
  match p.idxOf? '=', p.idxOf? ',' with
  | none, _ => true
  | some _, none => false
  | some pe, some pc => pc < pe

section Parse

variable (strtoull : List Char → UInt64 × List Char) (strtod : List Char → Float × List Char)

/-- The next option of `opts_do_parse`: its name, its value and the string
after it, or `none` for the `break` on a `name` not followed by `=`. `first`
is `p == params`. -/
def nextOption (firstname : Option (List Char)) (first : Bool) (p : List Char) :
    Option (List Char × List Char × List Char) :=
  if flagForm p then
    match first, firstname with
    | true, some f => some (f.take 127, getOptValue 1024 p)
    | _, _ =>
      match getOptName 128 p ',' with
      | (option, rest) =>
        if option.take 2 = "no".toList then some (option.drop 2, "off".toList, rest)
        else some (option, "on".toList, rest)
  else
    match getOptName 128 p '=' with
    | (option, '=' :: rest) => some (option, getOptValue 1024 rest)
    | _ => none

/-- The loop of `opts_do_parse`, `for (p = params; *p != '\0'; p++)`, on
`fuel` iterations: every option but `id` goes through `opt_set`; the loop
goes on past a comma. Gives the options and the error that stopped it. -/
def optsDoParseLoop (desc : List QemuOptDesc) (firstname : Option (List Char)) (prepend : Bool) :
    ℕ → Bool → QemuOpts → List Char → QemuOpts × Option QError
  | 0, _, opts, _ => (opts, none)
  | _ + 1, _, opts, [] => (opts, none)
  | fuel + 1, first, opts, c :: p =>
    match nextOption firstname first (c :: p) with
    | none => (opts, none)
    | some (option, value, rest) =>
      match (if option ≠ "id".toList then optSet strtoull strtod desc opts option (some value) prepend
          else .ok opts) with
      | .error e => (opts, some e)
      | .ok opts =>
        match rest with
        | ',' :: rest => optsDoParseLoop desc firstname prepend fuel false opts rest
        | _ => (opts, none)

/-- `opts_do_parse`; every iteration takes at least one character, so the
length of the string bounds the iterations. -/
def optsDoParse (desc : List QemuOptDesc) (opts : QemuOpts) (params : List Char)
    (firstname : Option (List Char)) (prepend : Bool) : QemuOpts × Option QError :=
  optsDoParseLoop strtoull strtod desc firstname prepend (params.length + 1) true opts params

/-- `qemu_opts_do_parse`. -/
def qemuOptsDoParse (desc : List QemuOptDesc) (opts : QemuOpts) (params : List Char)
    (firstname : Option (List Char)) : QemuOpts × Option QError :=
  optsDoParse strtoull strtod desc opts params firstname false

end Parse

/-- `id_wellformed`: a letter, then letters, digits, `-`, `.` and `_`. -/
def idWellformed : List Char → Bool
  | [] => false
  | c :: cs => c.isAlpha && cs.all fun c => c.isAlphanum || "-._".toList.contains c

/-- `qemu_opts_find`: the index of the first `QemuOpts` with that id, or
without id for a NULL one; `none` where it would `strcmp` against a NULL
id. -/
def qemuOptsFind : List QemuOpts → Option (List Char) → Option (Option ℕ)
  | [], _ => some none
  | opts :: l, id =>
    match opts.id, id with
    | none, none => some (some 0)
    | none, some _ => (qemuOptsFind l id).map (Option.map (· + 1))
    | some _, none => none
    | some x, some y =>
      if x = y then some (some 0) else (qemuOptsFind l id).map (Option.map (· + 1))

/-- `qemu_opts_create`: the list and the index of the options it gives; an
error for a malformed or (with `fail_if_exists` on a list that does not
merge) a duplicate id; `none` where `qemu_opts_find` fails. -/
def qemuOptsCreate (list : QemuOptsList) (id : Option (List Char)) (failIfExists : Bool) :
    Option (Except QError (QemuOptsList × ℕ)) :=
  let create : Except QError (QemuOptsList × ℕ) :=
    .ok ({ list with head := list.head ++ [⟨id, []⟩] }, list.head.length)
  match id with
  | some i =>
    if !idWellformed i then some (.error (.invalidParameterValue "id".toList .anIdentifier))
    else (qemuOptsFind list.head id).map fun
      | some k =>
        if failIfExists && !list.mergeLists then .error (.duplicateId i list.name)
        else .ok (list, k)
      | none => create
  | none =>
    if list.mergeLists then
      (qemuOptsFind list.head none).map fun
        | some k => .ok (list, k)
        | none => create
    else some create

/-- `qemu_opts_del`. -/
def qemuOptsDel (list : QemuOptsList) (k : ℕ) : QemuOptsList :=
  { list with head := list.head.eraseIdx k }

/-- The id `opts_parse` finds in a parameter string: after a leading `id=`,
or else after the first `,id=` that `strstr` finds. -/
def optsParseId (params : List Char) : Option (List Char) :=
  if params.take 3 = "id=".toList then some (getOptValue 1024 (params.drop 3)).1
  else (strstr ",id=".toList params).map fun p => (getOptValue 1024 (p.drop 4)).1

section Parse

variable (strtoull : List Char → UInt64 × List Char) (strtod : List Char → Float × List Char)

/-- `opts_parse`: the list and the index of the options it made or found,
`none` for NULL; the outer `none` for an abort. The options go away again
when the string fails to parse. -/
def optsParse (list : QemuOptsList) (params : List Char) (permitAbbrev defaults : Bool) :
    Option (QemuOptsList × Option ℕ) :=
  if permitAbbrev ∧ list.impliedOptName = none then none
  else
    let firstname := if permitAbbrev then list.impliedOptName else none
    let id := optsParseId params
    -- the inner `none` is a NULL `opts`, reported or not
    let created : Option (Option (QemuOptsList × ℕ)) :=
      if defaults ∧ id = none ∧ list.head ≠ [] then
        (qemuOptsFind list.head none).map (Option.map fun k => (list, k))
      else (qemuOptsCreate list id !defaults).map Except.toOption
    match created with
    | none => none
    | some none => some (list, none)
    | some (some (list, k)) =>
      match list.head[k]? with
      | none => none
      | some opts =>
        match optsDoParse strtoull strtod list.desc opts params firstname defaults with
        | (_, some _) => some (qemuOptsDel list k, none)
        | (opts, none) => some ({ list with head := list.head.set k opts }, some k)

/-- `qemu_opts_parse`. -/
def qemuOptsParse (list : QemuOptsList) (params : List Char) (permitAbbrev : Bool) :
    Option (QemuOptsList × Option ℕ) :=
  optsParse strtoull strtod list params permitAbbrev false

end Parse

/-! ## Descriptors after the fact, and dictionaries -/

section Validate

variable (strtoull : List Char → UInt64 × List Char) (strtod : List Char → Float × List Char)

/-- The loop of `qemu_opts_validate`: each option gets the descriptor of its
name and is parsed; the loop returns at the first unknown name or failed
parse, leaving the options before it done and that one with its new
descriptor. -/
def qemuOptsValidateLoop (desc : List QemuOptDesc) : List QemuOpt → List QemuOpt × Option QError
  | [] => ([], none)
  | opt :: l =>
    match findDesc desc opt.name with
    | none => (opt :: l, some (.invalidParameter opt.name))
    | some d =>
      match qemuOptParse strtoull strtod { opt with desc := some d } with
      | .error e => ({ opt with desc := some d } :: l, some e)
      | .ok opt =>
        let r := qemuOptsValidateLoop desc l
        (opt :: r.1, r.2)

/-- `qemu_opts_validate`, for options of a list with descriptor table
`listDesc`; `none` when `assert(opts->list->desc[0].name == NULL)` fails. -/
def qemuOptsValidate (listDesc : List QemuOptDesc) (opts : QemuOpts) (desc : List QemuOptDesc) :
    Option (QemuOpts × Option QError) :=
  if listDesc ≠ [] then none
  else
    let r := qemuOptsValidateLoop strtoull strtod desc opts.head
    some ({ opts with head := r.1 }, r.2)

end Validate

/-- The characters of a byte string. -/
def bytesCstr (s : List UInt8) : List Char := s.map fun b => Char.ofNat b.toNat

/-- `qdict_get_try_str`: the string stored under a key, if it is a
`QString`. -/
def qdictGetTryStr (entries : List (List UInt8 × QObject)) (key : List UInt8) :
    Option (List UInt8) :=
  match (entries.find? fun e => e.1 = key).map Prod.snd with
  | some (.qstring s) => some s
  | _ => none

section FromQdict

variable (strtoull : List Char → UInt64 × List Char) (strtod : List Char → Float × List Char)

/-- `qemu_opts_from_qdict_1`: every entry but `id` whose value is a string,
an integer or a boolean becomes an option through `qemu_opt_set_err`;
others are skipped. -/
def qemuOptsFromQdict1 (desc : List QemuOptDesc) (opts : QemuOpts) (key : List UInt8)
    (obj : QObject) : Except QError QemuOpts :=
  if key = cstrBytes "id".toList then .ok opts
  else
    let value : Option (List Char) :=
      match obj with
      | .qstring s => some (bytesCstr s)
      | .qint n => some (bytesCstr (fmtInt64 n))
      | .qbool b => some (if b then "on".toList else "off".toList)
      | _ => none
    match value with
    | none => .ok opts
    | some v => qemuOptSetErr strtoull strtod desc opts (bytesCstr key) (some v)

/-- `qemu_opts_from_qdict`, the entries in the order `qdict_iter` visits
them: the list and the index of the new options, `none` for NULL; the outer
`none` for an abort. -/
def qemuOptsFromQdict (list : QemuOptsList) (entries : List (List UInt8 × QObject)) :
    Option (QemuOptsList × Option ℕ) :=
  match qemuOptsCreate list ((qdictGetTryStr entries (cstrBytes "id".toList)).map bytesCstr) true
    with
  | none => none
  | some (.error _) => some (list, none)
  | some (.ok (list, k)) =>
    match list.head[k]? with
    | none => none
    | some opts =>
      match entries.foldlM (fun opts e => qemuOptsFromQdict1 strtoull strtod list.desc opts e.1 e.2)
          opts with
      | .error _ => some (qemuOptsDel list k, none)
      | .ok opts => some ({ list with head := list.head.set k opts }, some k)

end FromQdict

/-! ## The scanners on what they are given -/

/-- A value as it is written into a parameter string: every comma doubled. -/
def escComma : List Char → List Char
  | [] => []
  | c :: s => if c = ',' then ',' :: ',' :: escComma s else c :: escComma s

theorem escComma_append (a b : List Char) : escComma (a ++ b) = escComma a ++ escComma b := by
  induction a with
  | nil => rfl
  | cons c a ih =>
    by_cases hc : c = ','
    · simp [escComma, hc, ih]
    · simp [escComma, hc, ih]

theorem escComma_of_not_mem {s : List Char} (h : ',' ∉ s) : escComma s = s := by
  induction s with
  | nil => rfl
  | cons c s ih =>
    have hc : c ≠ ',' := fun hc => h (hc ▸ List.mem_cons_self)
    rw [escComma, if_neg hc, ih fun hs => h (List.mem_cons_of_mem _ hs)]

/-- `get_opt_name` reads a name up to the delimiter after it. -/
theorem getOptNameLoop_append {delim : Char} {n : List Char} (h : delim ∉ n) (r : List Char) :
    getOptNameLoop delim (n ++ delim :: r) = (n, delim :: r) := by
  induction n with
  | nil => simp [getOptNameLoop]
  | cons c n ih =>
    have hc : c ≠ delim := fun hc => h (hc ▸ List.mem_cons_self)
    simp only [List.cons_append, getOptNameLoop, if_neg hc,
      ih fun hn => h (List.mem_cons_of_mem _ hn)]

/-- `get_opt_value` copies a character other than a comma. -/
theorem getOptValueLoop_cons_of_ne {c : Char} (hc : c ≠ ',') (p : List Char) :
    getOptValueLoop (c :: p) = (c :: (getOptValueLoop p).1, (getOptValueLoop p).2) := by
  cases p <;> simp [getOptValueLoop, hc]

/-- `get_opt_value` undoes the doubling of commas, whatever follows. -/
theorem getOptValueLoop_escComma_append (v r : List Char) :
    getOptValueLoop (escComma v ++ r) =
      (v ++ (getOptValueLoop r).1, (getOptValueLoop r).2) := by
  induction v with
  | nil => rfl
  | cons c v ih =>
    by_cases hc : c = ','
    · subst hc
      simp only [escComma, if_true, List.cons_append, getOptValueLoop, ih]
    · rw [escComma, if_neg hc, List.cons_append, getOptValueLoop_cons_of_ne hc, ih,
        List.cons_append]

theorem getOptValue_escComma {v : List Char} (h : v.length ≤ 1023) :
    getOptValue 1024 (escComma v) = (v, []) := by
  have hv := getOptValueLoop_escComma_append v []
  rw [List.append_nil] at hv
  simp [getOptValue, hv, getOptValueLoop, List.take_of_length_le h]

/-- `strstr` passes over text that does not hold the needle's first
character. -/
theorem strstr_append_of_not_mem {c : Char} {needle pre : List Char} (h : c ∉ pre)
    (rest : List Char) : strstr (c :: needle) (pre ++ rest) = strstr (c :: needle) rest := by
  induction pre with
  | nil => rfl
  | cons a pre ih =>
    have ha : c ≠ a := fun ha => h (ha ▸ List.mem_cons_self)
    rw [List.cons_append, strstr, List.isPrefixOf_cons_cons,
      ih fun hp => h (List.mem_cons_of_mem _ hp)]
    simp [ha]

theorem idxOf?_append_of_not_mem {c : Char} {n : List Char} (h : c ∉ n) (l : List Char) :
    (n ++ l).idxOf? c = (l.idxOf? c).map (· + n.length) := by
  induction n with
  | nil => simp
  | cons a n ih =>
    have ha : a ≠ c := fun ha => h (ha ▸ List.mem_cons_self)
    rw [List.cons_append, List.idxOf?_cons, if_neg (by simpa using ha),
      ih fun hn => h (List.mem_cons_of_mem _ hn)]
    cases l.idxOf? c <;> simp [Nat.add_assoc]

/-- A name followed by `=` starts a `name=value` option. -/
theorem flagForm_name {n : List Char} (he : '=' ∉ n) (hc : ',' ∉ n) (r : List Char) :
    flagForm (n ++ '=' :: r) = false := by
  rw [flagForm, idxOf?_append_of_not_mem he, idxOf?_append_of_not_mem hc, List.idxOf?_cons,
    List.idxOf?_cons]
  simp only [beq_self_eq_true, if_true, Option.map_some, Nat.zero_add]
  cases r.idxOf? ',' <;> simp

theorem idWellformed_not_comma {x : List Char} (h : idWellformed x = true) : ',' ∉ x := by
  cases x with
  | nil => simp [idWellformed] at h
  | cons c x =>
    simp only [idWellformed, Bool.and_eq_true, List.all_eq_true] at h
    obtain ⟨hc, hx⟩ := h
    intro hmem
    rcases List.mem_cons.1 hmem with h0 | h0
    · rw [← h0] at hc
      exact absurd hc (by decide)
    · exact absurd (hx ',' h0) (by decide)

/-! ## One `name=value` option with an escaped value -/

section OneOption

variable (strtoull : List Char → UInt64 × List Char) (strtod : List Char → Float × List Char)

/-- Without descriptors, `opt_set` takes any name and parses nothing. -/
theorem optSet_nodesc (opts : QemuOpts) (name : List Char) (value : Option (List Char))
    (prepend : Bool) :
    optSet strtoull strtod [] opts name value prepend =
      .ok { opts with head := if prepend then newOpt name value none ⟨false, 0⟩ :: opts.head
        else opts.head ++ [newOpt name value none ⟨false, 0⟩] } := by
  simp [optSet, lookupDesc, findDesc, qemuOptParse, newOpt, bind, Except.bind, pure, Except.pure]

theorem getOptName_append {n : List Char} (he : '=' ∉ n) (hn : n.length ≤ 127) (r : List Char) :
    getOptName 128 (n ++ '=' :: r) '=' = (n, '=' :: r) := by
  simp [getOptName, getOptNameLoop_append he, List.take_of_length_le hn]

/-- A name, `=` and an escaped value make one option, read back whole. -/
theorem nextOption_name_value {n v : List Char} (he : '=' ∉ n) (hc : ',' ∉ n)
    (hn : n.length ≤ 127) (hv : v.length ≤ 1023) (firstname : Option (List Char)) (first : Bool) :
    nextOption firstname first (n ++ '=' :: escComma v) = some (n, v, []) := by
  rw [nextOption.eq_def, flagForm_name he hc, if_neg Bool.false_ne_true, getOptName_append he hn]
  simp [getOptValue_escComma hv]

/-- `opts_do_parse` on one `name=value` option without descriptors. -/
theorem optsDoParse_name_value (opts : QemuOpts) {n v : List Char} (he : '=' ∉ n)
    (hc : ',' ∉ n) (hid : n ≠ "id".toList) (hn : n.length ≤ 127) (hv : v.length ≤ 1023)
    (firstname : Option (List Char)) :
    optsDoParse strtoull strtod [] opts (n ++ '=' :: escComma v) firstname false =
      ({ opts with head := opts.head ++ [newOpt n (some v) none ⟨false, 0⟩] }, none) := by
  obtain ⟨c, p, hcp⟩ := List.exists_cons_of_ne_nil (List.append_ne_nil_of_right_ne_nil n
    (List.cons_ne_nil '=' (escComma v)))
  have hid' : n ≠ ['i', 'd'] := hid
  rw [optsDoParse, hcp, optsDoParseLoop, ← hcp, nextOption_name_value he hc hn hv]
  simp [hid', optSet_nodesc]

theorem take_three_ne_id {n : List Char} (he : '=' ∉ n) (hid : n ≠ "id".toList)
    (r : List Char) : (n ++ '=' :: r).take 3 ≠ "id=".toList := by
  rcases n with _ | ⟨a, _ | ⟨b, _ | ⟨c, n⟩⟩⟩
  · simp
  · simp
  · simp_all
  · -- the third character of a longer name would have to be `=`
    intro h
    simp only [List.cons_append, List.take_succ_cons, List.take_zero,
      show "id=".toList = ['i', 'd', '='] from rfl, List.cons.injEq] at h
    exact he (by simp [h.2.2.1])

/-- The id `opts_parse` finds in `name=esc(u,id=x)`: `strstr` stops at the
second of the doubled commas. -/
theorem optsParseId_escaped_id {n u x : List Char} (he : '=' ∉ n) (hc : ',' ∉ n)
    (hid : n ≠ "id".toList) (hu : ',' ∉ u) (hx : idWellformed x = true) (hxlen : x.length ≤ 1023) :
    optsParseId (n ++ '=' :: escComma (u ++ ",id=".toList ++ x)) = some x := by
  have hxc := idWellformed_not_comma hx
  have hesc : escComma (u ++ ",id=".toList ++ x) = u ++ ',' :: ',' :: "id=".toList ++ x := by
    rw [escComma_append, escComma_append, escComma_of_not_mem hu, escComma_of_not_mem hxc]
    rfl
  have hpre : ',' ∉ n ++ '=' :: u := by simp [hc, hu]
  have hsplit : n ++ '=' :: escComma (u ++ ",id=".toList ++ x) =
      (n ++ '=' :: u) ++ ',' :: ',' :: 'i' :: 'd' :: '=' :: x := by
    rw [hesc]
    simp
  have hfound : strstr ",id=".toList (n ++ '=' :: escComma (u ++ ",id=".toList ++ x)) =
      some (',' :: 'i' :: 'd' :: '=' :: x) := by
    rw [hsplit, show ",id=".toList = [',', 'i', 'd', '='] from rfl,
      strstr_append_of_not_mem hpre]
    simp [strstr]
  rw [optsParseId, if_neg (take_three_ne_id he hid _), hfound, Option.map_some]
  have hx' := getOptValue_escComma hxlen
  rw [escComma_of_not_mem hxc] at hx'
  simp [hx']

theorem qemuOptsCreate_fresh (list : QemuOptsList) {x : List Char} (hx : idWellformed x = true)
    (hfresh : qemuOptsFind list.head (some x) = some none) (failIfExists : Bool) :
    qemuOptsCreate list (some x) failIfExists =
      some (.ok ({ list with head := list.head ++ [⟨some x, []⟩] }, list.head.length)) := by
  simp [qemuOptsCreate, hx, hfresh]

/-- `qemu_opts_parse` on `name=esc(v)` for a value `v = u,id=x` whose
first part has no comma and whose tail is an identifier: the doubled comma
does not keep `strstr` from taking `x` for the id, so the options are
created with id `x`, and hold the one option `(name, v)`. -/
theorem qemuOptsParse_escaped_id (list : QemuOptsList) (hdesc : list.desc = [])
    {n u x : List Char} (he : '=' ∉ n) (hc : ',' ∉ n) (hid : n ≠ "id".toList)
    (hn : n.length ≤ 127) (hu : ',' ∉ u) (hx : idWellformed x = true)
    (hlen : (u ++ ",id=".toList ++ x).length ≤ 1023)
    (hfresh : qemuOptsFind list.head (some x) = some none) :
    qemuOptsParse strtoull strtod list (n ++ '=' :: escComma (u ++ ",id=".toList ++ x)) false =
      some ({ list with head := list.head ++
          [⟨some x, [newOpt n (some (u ++ ",id=".toList ++ x)) none ⟨false, 0⟩]⟩] },
        some list.head.length) := by
  have hxlen : x.length ≤ 1023 := by
    simp only [List.length_append] at hlen
    omega
  have hopts := optsDoParse_name_value strtoull strtod ⟨some x, []⟩ he hc hid hn hlen none
  rw [qemuOptsParse, optsParse]
  simp only [Bool.false_eq_true, false_and, if_false, optsParseId_escaped_id he hc hid hu hx hxlen,
    Bool.not_false, qemuOptsCreate_fresh list hx hfresh, Option.map_some, Except.toOption,
    List.getElem?_append_right le_rfl, Nat.sub_self, List.getElem?_cons_zero, hdesc, hopts,
    List.set_append_right _ _ le_rfl, List.set_cons_zero, List.nil_append]

/-- The `-device` list, which takes any name, on `a=x,,id=y`. -/
theorem qemuOptsParse_escaped_id_device :
    ('=' ∉ ['a'] ∧ ',' ∉ ['a'] ∧ ['a'] ≠ "id".toList ∧ ['a'].length ≤ 127 ∧ ',' ∉ ['x'] ∧
      idWellformed ['y'] = true ∧ (['x'] ++ ",id=".toList ++ ['y']).length ≤ 1023 ∧
      qemuOptsFind [] (some ['y']) = some none) ∧
    qemuOptsParse (fun s => (0, s)) (fun s => (0, s))
        ⟨"device".toList, some "driver".toList, false, [], []⟩
        (['a'] ++ '=' :: escComma (['x'] ++ ",id=".toList ++ ['y'])) false =
      some ({ (⟨"device".toList, some "driver".toList, false, [], []⟩ : QemuOptsList) with
          head := ([] : List QemuOpts) ++
            [⟨some ['y'], [newOpt ['a'] (some (['x'] ++ ",id=".toList ++ ['y'])) none ⟨false, 0⟩]⟩] },
        some ([] : List QemuOpts).length) :=
  ⟨⟨by decide, by decide, by decide, by decide, by decide, by decide, by decide, rfl⟩,
    qemuOptsParse_escaped_id (fun s => (0, s)) (fun s => (0, s)) _ rfl (by decide) (by decide)
      (by decide) (by decide) (by decide) (by decide) (by decide) rfl⟩

end OneOption

/-! ## Strings and typed values -/

section Consistent

variable (strtoull : List Char → UInt64 × List Char) (strtod : List Char → Float × List Char)

/-- An option whose string is there and whose typed value is what parsing
that string gives: parsing it again changes nothing. -/
def OptConsistent (opt : QemuOpt) : Prop :=
  opt.str.isSome ∧ qemuOptParse strtoull strtod opt = .ok opt

/-- A parse changes the typed value only, and parsing its result again
changes nothing. -/
theorem qemuOptParse_ok {opt opt' : QemuOpt} (h : qemuOptParse strtoull strtod opt = .ok opt') :
    opt'.name = opt.name ∧ opt'.str = opt.str ∧ opt'.desc = opt.desc ∧
      qemuOptParse strtoull strtod opt' = .ok opt' := by
  unfold qemuOptParse at h ⊢
  split at h
  · cases h
    simp_all
  · rename_i d hd
    split at h
    · cases h
      simp_all
    · rename_i ht
      cases hp : parseOptionBool opt.name opt.str <;> rw [hp] at h <;> cases h
      simp [hd, ht, hp, Except.map]
    · rename_i ht
      cases hp : parseOptionNumber strtoull opt.name opt.str <;> rw [hp] at h <;> cases h
      simp [hd, ht, hp, Except.map]
    · rename_i ht
      cases hp : parseOptionSize strtod opt.name opt.str <;> rw [hp] at h <;> cases h
      simp [hd, ht, hp, Except.map]

/-- `opt_set` with a string keeps every option consistent. -/
theorem optSet_consistent {desc : List QemuOptDesc} {opts opts' : QemuOpts} {name value : List Char}
    {prepend : Bool} (h : optSet strtoull strtod desc opts name (some value) prepend = .ok opts')
    (hopts : ∀ o ∈ opts.head, OptConsistent strtoull strtod o) :
    ∀ o ∈ opts'.head, OptConsistent strtoull strtod o := by
  unfold optSet at h
  cases hd : lookupDesc desc name with
  | error e =>
    rw [hd] at h
    cases h
  | ok d =>
    rw [hd] at h
    cases hp : qemuOptParse strtoull strtod (newOpt name (some value) d ⟨false, 0⟩) with
    | error e =>
      simp only [hp, bind, Except.bind] at h
      cases h
    | ok opt =>
      simp only [hp, bind, Except.bind, pure, Except.pure, Except.ok.injEq] at h
      obtain ⟨-, hstr, -, hidem⟩ := qemuOptParse_ok strtoull strtod hp
      have hnew : OptConsistent strtoull strtod opt := ⟨by simp [hstr, newOpt], hidem⟩
      intro o ho
      subst h
      split at ho
      · rcases List.mem_cons.1 ho with rfl | ho
        · exact hnew
        · exact hopts o ho
      · rcases List.mem_append.1 ho with ho | ho
        · exact hopts o ho
        · rw [List.mem_singleton.1 ho]
          exact hnew

/-- `opts_do_parse` keeps every option consistent, up to where it stops. -/
theorem optsDoParseLoop_consistent (desc : List QemuOptDesc) (firstname : Option (List Char))
    (prepend : Bool) (fuel : ℕ) (first : Bool) (opts : QemuOpts) (p : List Char)
    (hopts : ∀ o ∈ opts.head, OptConsistent strtoull strtod o) :
    ∀ o ∈ (optsDoParseLoop strtoull strtod desc firstname prepend fuel first opts p).1.head,
      OptConsistent strtoull strtod o := by
  induction fuel generalizing first opts p with
  | zero => simpa [optsDoParseLoop] using hopts
  | succ fuel ih =>
    cases p with
    | nil => simpa [optsDoParseLoop] using hopts
    | cons c p =>
      rw [optsDoParseLoop]
      split
      · exact hopts
      · rename_i option value rest _
        -- the option goes through `opt_set` unless it is the id
        split
        · exact hopts
        · rename_i opts₁ hset
          have hopts₁ : ∀ o ∈ opts₁.head, OptConsistent strtoull strtod o := by
            split at hset
            · exact optSet_consistent strtoull strtod hset hopts
            · cases hset
              exact hopts
          split
          · exact ih _ _ _ hopts₁
          · exact hopts₁

/-- A successful `qemu_opts_validate` leaves every option that has a string
consistent. -/
theorem qemuOptsValidateLoop_consistent (desc : List QemuOptDesc) {l l' : List QemuOpt}
    (h : qemuOptsValidateLoop strtoull strtod desc l = (l', none)) :
    ∀ o ∈ l', o.str.isSome → OptConsistent strtoull strtod o := by
  induction l generalizing l' with
  | nil =>
    simp only [qemuOptsValidateLoop, Prod.mk.injEq] at h
    simp [← h.1]
  | cons opt l ih =>
    rw [qemuOptsValidateLoop] at h
    split at h
    · simp at h
    · split at h
      · simp at h
      · rename_i opt' hparse
        simp only [Prod.mk.injEq] at h
        obtain ⟨rfl, hrest⟩ := h
        intro o ho hs
        rcases List.mem_cons.1 ho with rfl | ho
        · exact ⟨hs, (qemuOptParse_ok strtoull strtod hparse).2.2.2⟩
        · exact ih (Prod.ext rfl hrest) o ho hs

/-- The entries `qemu_opts_from_qdict` sets keep every option consistent. -/
theorem qemuOptsFromQdict1_consistent (desc : List QemuOptDesc)
    (entries : List (List UInt8 × QObject)) {opts opts' : QemuOpts}
    (h : entries.foldlM (fun opts e => qemuOptsFromQdict1 strtoull strtod desc opts e.1 e.2) opts =
      .ok opts')
    (hopts : ∀ o ∈ opts.head, OptConsistent strtoull strtod o) :
    ∀ o ∈ opts'.head, OptConsistent strtoull strtod o := by
  induction entries generalizing opts with
  | nil =>
    simp only [List.foldlM_nil, pure, Except.pure, Except.ok.injEq] at h
    exact h ▸ hopts
  | cons e entries ih =>
    rw [List.foldlM_cons] at h
    cases he : qemuOptsFromQdict1 strtoull strtod desc opts e.1 e.2 with
    | error err =>
      rw [he] at h
      cases h
    | ok opts₁ =>
      rw [he] at h
      refine ih h ?_
      unfold qemuOptsFromQdict1 at he
      split at he
      · cases he
        exact hopts
      · dsimp only at he
        split at he
        · cases he
          exact hopts
        · exact optSet_consistent strtoull strtod he hopts

end Consistent

/-- `qemu_opt_find` after a change to the last option of the name. -/
theorem find?_reverse_updateLast {α : Type*} (p : α → Bool) (f : α → α) (hf : ∀ a, p (f a) = p a)
    (l : List α) : (updateLast p f l).reverse.find? p = (l.reverse.find? p).map f := by
  induction l with
  | nil => rfl
  | cons a l ih =>
    rw [updateLast]
    by_cases hl : l.any p
    · obtain ⟨b, hb⟩ : ∃ b, l.reverse.find? p = some b := by
        obtain ⟨x, hx, hpx⟩ := List.any_eq_true.1 hl
        exact Option.isSome_iff_exists.1 (List.find?_isSome.2 ⟨x, List.mem_reverse.2 hx, hpx⟩)
      simp [hl, List.reverse_cons, List.find?_append, ih, hb]
    · have hnone : l.reverse.find? p = none := by
        simpa [List.find?_eq_none] using hl
      have hnone' : (updateLast p f l).reverse.find? p = none := by
        rw [ih, hnone, Option.map_none]
      by_cases ha : p a
      · simp [hl, ha, List.reverse_cons, List.find?_append, hnone, hf]
      · simp [hl, ha, List.reverse_cons, List.find?_append, hnone]

/-- `qemu_opt_reset` on a name that has an option: it returns 0 and the
last option of the name has the new string and all it had besides. -/
theorem qemuOptReset_found {opts : QemuOpts} {name : List Char} {opt : QemuOpt}
    (hfind : qemuOptFind opts name = some opt) (value : Option (List Char)) :
    (qemuOptReset opts name value).2 = 0 ∧
      qemuOptFind (qemuOptReset opts name value).1 name = some { opt with str := value } := by
  unfold qemuOptReset
  rw [hfind]
  refine ⟨rfl, ?_⟩
  have h := find?_reverse_updateLast (fun o : QemuOpt => decide (o.name = name))
    (fun o => { o with str := value }) (fun _ => rfl) opts.head
  unfold qemuOptFind at hfind ⊢
  rw [hfind, Option.map_some] at h
  exact h

/-- `qemu_opt_reset` replaces the string of an option with a BOOL descriptor
and keeps its typed value: `qemu_opt_get` answers the new string and
`qemu_opt_get_bool` the old value. -/
theorem qemuOptReset_stale_bool {opts : QemuOpts} {name : List Char} {opt : QemuOpt}
    (hfind : qemuOptFind opts name = some opt)
    (hbool : opt.desc.map QemuOptDesc.type = some .bool) (value : List Char) (defval : Bool) :
    qemuOptGet (qemuOptReset opts name (some value)).1 name = some value ∧
      qemuOptGetBool (qemuOptReset opts name (some value)).1 name defval =
        some opt.value.boolean := by
  have hreset := (qemuOptReset_found hfind (some value)).2
  refine ⟨by rw [qemuOptGet, hreset]; rfl, ?_⟩
  rw [qemuOptGetBool, qemuOptGetTyped, hreset]
  simp [hbool]

/-- A fold in `Option` fails when one of the elements fails whatever the
accumulator. -/
theorem foldlM_eq_none_of_mem {α β : Type} (f : β → α → Option β) {l : List α} {a : α}
    (ha : a ∈ l) (hf : ∀ b, f b a = none) (b : β) : l.foldlM f b = none := by
  induction l generalizing b with
  | nil => cases ha
  | cons x l ih =>
    rw [List.foldlM_cons]
    rcases List.mem_cons.1 ha with rfl | ha
    · simp [hf]
    · cases hx : f b x with
      | none => rfl
      | some b' => exact ih ha b'

/-- `qemu_opts_to_qdict` fails at an option without a string. -/
theorem qemuOptsToQdict_eq_none {opts : QemuOpts} {o : QemuOpt} (ho : o ∈ opts.head)
    (hs : o.str = none) (qdict : Option (List (List UInt8 × QObject))) :
    qemuOptsToQdict opts qdict = none :=
  foldlM_eq_none_of_mem _ ho (fun _ => by simp [hs]) _

/-- The option `qemu_opt_find` finds after an option went in at the tail
under the same name. -/
theorem qemuOptFind_append_self (opts : QemuOpts) (opt : QemuOpt) :
    qemuOptFind { opts with head := opts.head ++ [opt] } opt.name = some opt := by
  simp [qemuOptFind]

/-- `qemu_opt_set_bool` stores no string. Whenever it succeeds, the options
hold one with a NULL `str`: `qemu_opt_get` answers NULL for the name while
`qemu_opt_get_bool` (under a BOOL descriptor) answers the value, and
`qemu_opts_to_qdict` hands the NULL to `qstring_from_str`. -/
theorem qemuOptSetBool_null_str (desc : List QemuOptDesc) (opts opts' : QemuOpts)
    (name : List Char) (val : Bool) (h : qemuOptSetBool desc opts name val = .ok opts') :
    (∃ opt ∈ opts'.head, opt.name = name ∧ opt.str = none) ∧ qemuOptGet opts' name = none ∧
      (∀ qdict, qemuOptsToQdict opts' qdict = none) ∧
      ((findDesc desc name).map QemuOptDesc.type = some .bool →
        qemuOptGetBool opts' name (!val) = some val) := by
  unfold qemuOptSetBool at h
  cases hd : lookupDesc desc name with
  | error e =>
    rw [hd] at h
    cases h
  | ok d =>
    simp only [hd, bind, Except.bind, pure, Except.pure, Except.ok.injEq] at h
    subst h
    have hdesc : d = findDesc desc name := by
      unfold lookupDesc at hd
      split at hd
      · cases hd
        simp_all
      · split at hd <;> cases hd
        simp_all
    subst hdesc
    have hfind : qemuOptFind { opts with head := opts.head ++
        [newOpt name none (findDesc desc name) ⟨val, 0⟩] } name =
        some (newOpt name none (findDesc desc name) ⟨val, 0⟩) :=
      qemuOptFind_append_self opts _
    have hnull : ∃ opt ∈ opts.head ++ [newOpt name none (findDesc desc name) ⟨val, 0⟩],
        opt.name = name ∧ opt.str = none :=
      ⟨_, List.mem_append_right _ (List.mem_singleton_self _), rfl, rfl⟩
    refine ⟨hnull, ?_, qemuOptsToQdict_eq_none (List.mem_append_right _ (List.mem_singleton_self _))
      rfl, fun hb => ?_⟩
    · rw [qemuOptGet, hfind]
      rfl
    · rw [qemuOptGetBool, qemuOptGetTyped, hfind]
      simp [newOpt, hb]

/-- `-drive` with its BOOL descriptor `snapshot`, as `qemu_opt_set_bool`
sets it. -/
theorem qemuOptSetBool_null_str_snapshot :
    qemuOptSetBool [⟨"snapshot".toList, .bool⟩] ⟨none, []⟩ "snapshot".toList true =
      .ok ⟨none, [newOpt "snapshot".toList none (some ⟨"snapshot".toList, .bool⟩) ⟨true, 0⟩]⟩ ∧
    ((∃ opt ∈ (⟨none, [newOpt "snapshot".toList none (some ⟨"snapshot".toList, .bool⟩) ⟨true, 0⟩]⟩
        : QemuOpts).head, opt.name = "snapshot".toList ∧ opt.str = none) ∧
      qemuOptGet ⟨none, [newOpt "snapshot".toList none (some ⟨"snapshot".toList, .bool⟩) ⟨true, 0⟩]⟩
        "snapshot".toList = none ∧
      (∀ qdict, qemuOptsToQdict
        ⟨none, [newOpt "snapshot".toList none (some ⟨"snapshot".toList, .bool⟩) ⟨true, 0⟩]⟩
        qdict = none) ∧
      ((findDesc [⟨"snapshot".toList, .bool⟩] "snapshot".toList).map QemuOptDesc.type = some .bool →
        qemuOptGetBool ⟨none, [newOpt "snapshot".toList none (some ⟨"snapshot".toList, .bool⟩)
          ⟨true, 0⟩]⟩ "snapshot".toList (!true) = some true)) := by
  have hset : qemuOptSetBool [⟨"snapshot".toList, .bool⟩] ⟨none, []⟩ "snapshot".toList true =
      .ok ⟨none, [newOpt "snapshot".toList none (some ⟨"snapshot".toList, .bool⟩) ⟨true, 0⟩]⟩ := by
    decide
  exact ⟨hset, qemuOptSetBool_null_str _ _ _ _ _ hset⟩

end QemuKvm.Opts
