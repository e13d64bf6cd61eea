import ScriptEngine.Program.Parser.Statement

/-!
# The prelude

Libraries that are written as scripts. They are evaluated in order when a session starts, and what they
export is global from then on. A library is given by the lines of its text.
-/

namespace ScriptEngine.Prelude

/-! ## Texts -/

/-- The type predicates of scripts. -/
def predicates : List String :=
  ["// Type predicates. Usable as parameter annotations: func f(x: is_number?) \x7b ... \x7d",
   "",
   "export func is_null?(v) \x7b __zephyr_native.type_of(v) == \"null\" \x7d",
   "export func is_bool?(v) \x7b __zephyr_native.type_of(v) == \"boolean\" \x7d",
   "export func is_number?(v) \x7b __zephyr_native.type_of(v) == \"number\" \x7d",
   "export func is_string?(v) \x7b __zephyr_native.type_of(v) == \"string\" \x7d",
   "export func is_array?(v) \x7b __zephyr_native.type_of(v) == \"array\" \x7d",
   "export func is_object?(v) \x7b __zephyr_native.type_of(v) == \"object\" \x7d",
   "export func is_reference?(v) \x7b __zephyr_native.type_of(v) == \"reference\" \x7d",
   "",
   "export func is_function?(v) \x7b",
   "    let t = __zephyr_native.type_of(v);",
   "    t == \"function\" || t == \"native_function\"",
   "\x7d",
   "",
   "export func is_int?(v) \x7b",
   "    is_number?(v) && __zephyr_native.floor(v) == v",
   "\x7d",
   "",
   "export func is_between?(v, low, high) \x7b",
   "    is_number?(v) && v >= low && v <= high",
   "\x7d",
   "",
   "export func is_error?(v) \x7b",
   "    is_object?(v) && \"message\" in v && \"type\" in v",
   "\x7d",
   "",
   "export func is_any?(v) \x7b true \x7d"]

/-- Console, conversion and error helpers of scripts. -/
def core : List String :=
  ["// Console, conversion and error helpers",
   "",
   "export func print(__args__) \x7b",
   "    __zephyr_native.call_zephyr_function(__zephyr_native.print, __args__);",
   "    null",
   "\x7d",
   "",
   "export func write(__args__) \x7b",
   "    __zephyr_native.call_zephyr_function(__zephyr_native.write, __args__);",
   "    null",
   "\x7d",
   "",
   "export func read_line(prompt) \x7b",
   "    if prompt == null \x7b __zephyr_native.read_line() \x7d else \x7b __zephyr_native.read_line(prompt) \x7d",
   "\x7d",
   "",
   "export func to_string(v) \x7b __zephyr_native.to_string(v) \x7d",
   "export func type_of(v) \x7b __zephyr_native.type_of(v) \x7d",
   "export func len(v) \x7b $v \x7d",
   "",
   "// error(\"msg\") or error(\"msg\", \"Kind\", data)",
   "export func error(message: is_string?, kind, data) \x7b",
   "    __zephyr_native.error(message, kind, data)",
   "\x7d",
   "",
   "export func assert(condition: is_bool?, message) \x7b",
   "    if !condition \x7b",
   "        throw error(if message == null \x7b \"assertion failed\" \x7d else \x7b message \x7d, \"AssertionError\");",
   "    \x7d",
   "    true",
   "\x7d",
   "",
   "export func args() \x7b __zephyr_native.get_args() \x7d",
   "export func spawn(fn: is_function?) \x7b __zephyr_native.spawn_thread(fn) \x7d",
   "export func ref(v) \x7b __zephyr_native.make_ref(v) \x7d",
   "export func deref(r: is_reference?) \x7b __zephyr_native.deref(r) \x7d"]

/-- The array library of scripts. -/
def arrays : List String :=
  ["// Array library. Every operation with a `!` spelling mutates its first",
   "// argument in place and returns it; the plain spelling returns a new array.",
   "",
   "const native = __zephyr_native;",
   "",
   "func push(arr: is_array?, __args__) \x7b",
   "    let out = native.shallow_copy(arr);",
   "    for v in __args__ \x7b native.push_arr(out, v); \x7d",
   "    out",
   "\x7d",
   "",
   "func push!(arr: is_array?, __args__) \x7b",
   "    for v in __args__ \x7b native.push_arr(arr, v); \x7d",
   "    arr",
   "\x7d",
   "",
   "func skip(arr: is_array?, n: is_int?) \x7b native.slice(arr, n) \x7d",
   "func skip!(arr: is_array?, n: is_int?) \x7b native.arr_ref_set(arr, skip(arr, n)) \x7d",
   "",
   "func slice(arr: is_array?, start: is_int?, end) \x7b native.slice(arr, start, end) \x7d",
   "func slice!(arr: is_array?, start: is_int?, end) \x7b native.arr_ref_set(arr, slice(arr, start, end)) \x7d",
   "",
   "func take(arr: is_array?, n: is_int?) \x7b native.slice(arr, 0, n) \x7d",
   "func take!(arr: is_array?, n: is_int?) \x7b native.arr_ref_set(arr, take(arr, n)) \x7d",
   "",
   "func concat(arr: is_array?, __args__) \x7b",
   "    let out = native.shallow_copy(arr);",
   "    for other in __args__ \x7b",
   "        for v in other \x7b native.push_arr(out, v); \x7d",
   "    \x7d",
   "    out",
   "\x7d",
   "",
   "func concat!(arr: is_array?, __args__) \x7b",
   "    for other in __args__ \x7b",
   "        for v in other \x7b native.push_arr(arr, v); \x7d",
   "    \x7d",
   "    arr",
   "\x7d",
   "",
   "func map(arr: is_array?, f: is_function?) \x7b",
   "    let out = [];",
   "    for v in arr \x7b native.push_arr(out, f(v)); \x7d",
   "    out",
   "\x7d",
   "",
   "func map!(arr: is_array?, f: is_function?) \x7b native.arr_ref_set(arr, map(arr, f)) \x7d",
   "",
   "func filter(arr: is_array?, keep: is_function?) \x7b",
   "    let out = [];",
   "    for v in arr \x7b",
   "        if keep(v) \x7b native.push_arr(out, v); \x7d",
   "    \x7d",
   "    out",
   "\x7d",
   "",
   "func filter!(arr: is_array?, keep: is_function?) \x7b native.arr_ref_set(arr, filter(arr, keep)) \x7d",
   "",
   "func reverse(arr: is_array?) \x7b native.reverse(arr) \x7d",
   "func reverse!(arr: is_array?) \x7b native.arr_ref_set(arr, native.reverse(arr)) \x7d",
   "",
   "// Drop every element equal to x",
   "func remove(arr: is_array?, x) \x7b filter(arr, func (v) \x7b v != x \x7d) \x7d",
   "func remove!(arr: is_array?, x) \x7b native.arr_ref_set(arr, remove(arr, x)) \x7d",
   "",
   "func first(arr: is_array?) \x7b if $arr == 0 \x7b null \x7d else \x7b arr[0] \x7d \x7d",
   "func last(arr: is_array?) \x7b if $arr == 0 \x7b null \x7d else \x7b arr[$arr - 1] \x7d \x7d",
   "",
   "func same_as(a, b) \x7b a == b \x7d",
   "func shallow_copy(arr) \x7b native.shallow_copy(arr) \x7d",
   "func deep_copy(arr) \x7b native.deep_copy(arr) \x7d",
   "",
   "func includes?(arr: is_array?, x) \x7b x in arr \x7d",
   "",
   "func index_of(arr: is_array?, x) \x7b",
   "    for i, v in arr \x7b",
   "        if v == x \x7b return i; \x7d",
   "    \x7d",
   "    null",
   "\x7d",
   "",
   "func find(arr: is_array?, test: is_function?) \x7b",
   "    for v in arr \x7b",
   "        if test(v) \x7b return v; \x7d",
   "    \x7d",
   "    null",
   "\x7d",
   "",
   "func reduce(arr: is_array?, f: is_function?, initial) \x7b",
   "    let acc = initial;",
   "    for v in arr \x7b acc = f(acc, v); \x7d",
   "    acc",
   "\x7d",
   "",
   "func each(arr: is_array?, f: is_function?) \x7b",
   "    for v in arr \x7b f(v); \x7d",
   "    arr",
   "\x7d",
   "",
   "func join(arr: is_array?, sep) \x7b",
   "    let glue = if sep == null \x7b \"\" \x7d else \x7b sep \x7d;",
   "    let out = \"\";",
   "    for i, v in arr \x7b",
   "        if i > 0 \x7b out += glue; \x7d",
   "        out += native.to_string(v);",
   "    \x7d",
   "    out",
   "\x7d",
   "",
   "// Stable insertion sort; `less` defaults to <",
   "func sort(arr: is_array?, less) \x7b",
   "    let out = native.shallow_copy(arr);",
   "    if $out < 2 \x7b return out; \x7d",
   "    let before = if less == null \x7b func (a, b) \x7b a < b \x7d \x7d else \x7b less \x7d;",
   "    for i in 1.<$out \x7b",
   "        let j = i;",
   "        while j > 0 && before(out[j], out[j - 1]) \x7b",
   "            let held = out[j];",
   "            out[j] = out[j - 1];",
   "            out[j - 1] = held;",
   "            j--;",
   "        \x7d",
   "    \x7d",
   "    out",
   "\x7d",
   "",
   "func sort!(arr: is_array?, less) \x7b native.arr_ref_set(arr, sort(arr, less)) \x7d",
   "",
   "func is_empty?(arr: is_array?) \x7b $arr == 0 \x7d",
   "func length(arr: is_array?) \x7b $arr \x7d",
   "",
   "export const Array = .\x7b",
   "    push, push!, skip, skip!, slice, slice!, take, take!,",
   "    concat, concat!, map, map!, filter, filter!, reverse, reverse!,",
   "    remove, remove!, sort, sort!,",
   "    first, last, same_as, shallow_copy, deep_copy, includes?, index_of,",
   "    find, reduce, each, join, is_empty?, length,",
   "\x7d;",
   "",
   "// Method-style calls on arrays: [1, 2].first()",
   "const proto = native.get_proto_obj(\"array\");",
   "for name, f in Array \x7b proto[name] = f; \x7d"]

/-- The string library of scripts. -/
def strings : List String :=
  ["// String library",
   "",
   "const native = __zephyr_native;",
   "",
   "// Position of the first occurrence of sub in s, or null",
   "func index_of(s: is_string?, sub: is_string?) \x7b",
   "    let n = $sub;",
   "    if n > $s \x7b return null; \x7d",
   "    for i in 0..($s - n) \x7b",
   "        if native.slice(s, i, i + n) == sub \x7b return i; \x7d",
   "    \x7d",
   "    null",
   "\x7d",
   "",
   "func contains?(s: is_string?, sub: is_string?) \x7b sub in s \x7d",
   "",
   "func starts_with?(s: is_string?, prefix: is_string?) \x7b",
   "    $prefix <= $s && native.slice(s, 0, $prefix) == prefix",
   "\x7d",
   "",
   "func ends_with?(s: is_string?, suffix: is_string?) \x7b",
   "    $suffix <= $s && native.slice(s, $s - $suffix) == suffix",
   "\x7d",
   "",
   "func chars(s: is_string?) \x7b native.iter(s) \x7d",
   "",
   "func split(s: is_string?, sep: is_string?) \x7b native.str_split(s, sep) \x7d",
   "",
   "func repeat(s: is_string?, count: is_int?) \x7b",
   "    let out = \"\";",
   "    let i = 0;",
   "    while i < count \x7b",
   "        out += s;",
   "        i++;",
   "    \x7d",
   "    out",
   "\x7d",
   "",
   "func slice(s: is_string?, start: is_int?, end) \x7b native.slice(s, start, end) \x7d",
   "func reverse(s: is_string?) \x7b native.reverse(s) \x7d",
   "func trim(s: is_string?) \x7b native.rg_replace(\"^\\\\s+|\\\\s+$\", s, \"\") \x7d",
   "func replace(s: is_string?, pattern: is_string?, replacement: is_string?) \x7b",
   "    native.rg_replace(pattern, s, replacement)",
   "\x7d",
   "func matches?(s: is_string?, pattern: is_string?) \x7b native.rg_is_match(pattern, s) \x7d",
   "func to_number(s: is_string?) \x7b native.str_to_number(s) \x7d",
   "func char_code(s: is_string?) \x7b native.char_code(s) \x7d",
   "func from_char_code(n: is_int?) \x7b native.from_char_code(n) \x7d",
   "func to_bytes(s: is_string?) \x7b native.utf8_to_buff(s) \x7d",
   "func from_bytes(buffer: is_array?) \x7b native.buff_to_utf8(buffer) \x7d",
   "func length(s: is_string?) \x7b $s \x7d",
   "",
   "export const String = .\x7b",
   "    index_of, contains?, starts_with?, ends_with?, chars, split, repeat,",
   "    slice, reverse, trim, replace, matches?, to_number, char_code,",
   "    from_char_code, to_bytes, from_bytes, length,",
   "\x7d;",
   "",
   "const proto = native.get_proto_obj(\"string\");",
   "for name, f in String \x7b proto[name] = f; \x7d"]

/-- The object library of scripts, and the methods that every value answers to. -/
def objects : List String :=
  ["// Object library, plus the methods every value answers to",
   "",
   "const native = __zephyr_native;",
   "",
   "func keys(obj: is_object?) \x7b native.keys(obj) \x7d",
   "",
   "func values(obj: is_object?) \x7b",
   "    let out = [];",
   "    for v in obj \x7b native.push_arr(out, v); \x7d",
   "    out",
   "\x7d",
   "",
   "func entries(obj: is_object?) \x7b",
   "    let out = [];",
   "    for k, v in obj \x7b native.push_arr(out, [k, v]); \x7d",
   "    out",
   "\x7d",
   "",
   "func has?(obj: is_object?, key: is_string?) \x7b key in obj \x7d",
   "",
   "func merge(obj: is_object?, __args__) \x7b",
   "    let out = native.shallow_copy(obj);",
   "    for other in __args__ \x7b",
   "        for k, v in other \x7b out[k] = v; \x7d",
   "    \x7d",
   "    out",
   "\x7d",
   "",
   "func to_json(v) \x7b native.zephyr_to_json(v) \x7d",
   "func from_json(s: is_string?) \x7b native.parse_json(s) \x7d",
   "",
   "export const Object = .\x7b keys, values, entries, has?, merge, to_json, from_json \x7d;",
   "",
   "const proto = native.get_proto_obj(\"object\");",
   "for name, f in Object \x7b proto[name] = f; \x7d",
   "",
   "// Fallback methods for any kind of value",
   "const any = native.get_proto_obj(\"any\");",
   "any.same_as = func (a, b) \x7b a == b \x7d;",
   "any.shallow_copy = native.shallow_copy;",
   "any.deep_copy = native.deep_copy;",
   "any.to_string = native.to_string;",
   "any.type_of = native.type_of;"]

/-- The mathematical library of scripts. -/
def math : List String :=
  ["// Math library. Numbers are exact: integers and rationals.",
   "",
   "pure func max(__args__) \x7b",
   "    if $__args__ == 0 \x7b return null; \x7d",
   "    let best = __args__[0];",
   "    for v in __args__ \x7b",
   "        if v > best \x7b best = v; \x7d",
   "    \x7d",
   "    best",
   "\x7d",
   "",
   "pure func min(__args__) \x7b",
   "    if $__args__ == 0 \x7b return null; \x7d",
   "    let best = __args__[0];",
   "    for v in __args__ \x7b",
   "        if v < best \x7b best = v; \x7d",
   "    \x7d",
   "    best",
   "\x7d",
   "",
   "pure func abs(n: is_number?) \x7b if n < 0 \x7b -n \x7d else \x7b n \x7d \x7d",
   "pure func sign(n: is_number?) \x7b if n < 0 \x7b -1 \x7d else if n > 0 \x7b 1 \x7d else \x7b 0 \x7d \x7d",
   "pure func floor(n: is_number?) \x7b __zephyr_native.floor(n) \x7d",
   "pure func ceil(n: is_number?) \x7b __zephyr_native.ceil(n) \x7d",
   "",
   "pure func round(n: is_number?) \x7b",
   "    __zephyr_native.floor(n + 1 / 2)",
   "\x7d",
   "",
   "pure func clamp(n: is_number?, low: is_number?, high: is_number?) where low <= high \x7b",
   "    if n < low \x7b low \x7d else if n > high \x7b high \x7d else \x7b n \x7d",
   "\x7d",
   "",
   "pure func sum(__args__) \x7b",
   "    let total = 0;",
   "    for v in __args__ \x7b total += v; \x7d",
   "    total",
   "\x7d",
   "",
   "pure func pow(base: is_number?, exponent: is_int?) \x7b base ** exponent \x7d",
   "pure func random() \x7b __zephyr_native.random() \x7d",
   "pure func random_range(low: is_int?, high: is_int?) \x7b __zephyr_native.random_range(low, high) \x7d",
   "",
   "export const Math = .\x7b",
   "    max, min, abs, sign, floor, ceil, round, clamp, sum, pow, random, random_range,",
   "\x7d;"]

/-- The result values of scripts. -/
def results : List String :=
  ["// Result values: Result.Ok(value) or Result.Err(error)",
   "",
   "export enum Result \x7b Ok, Err \x7d",
   "",
   "export func is_ok?(r) \x7b r is Result.Ok \x7d",
   "export func is_err?(r) \x7b r is Result.Err \x7d",
   "",
   "// The Ok payload, or throw the Err payload",
   "export func unwrap(r) \x7b",
   "    match r \x7b",
   "        is Result.Ok \x7b r \x7d",
   "        is Result.Err \x7b throw r; \x7d",
   "        else \x7b throw error(\"unwrap() expects a Result\", \"TypeError\", r); \x7d",
   "    \x7d",
   "\x7d",
   "",
   "export func unwrap_or(r, fallback) \x7b",
   "    if r is Result.Ok \x7b r \x7d else \x7b fallback \x7d",
   "\x7d",
   "",
   "// Run f() and capture a throw as Result.Err",
   "export func attempt(f: is_function?) \x7b",
   "    try \x7b",
   "        Result.Ok(f())",
   "    \x7d catch e \x7b",
   "        Result.Err(e)",
   "    \x7d",
   "\x7d"]

/-! ## Libraries -/

/-- A library: the name of its file and its lines. -/
structure Library where
  file : Text
  lines : List String

/-- The libraries in the order in which they are evaluated. -/
def libraries : List Library :=
  [⟨"predicates.zr", predicates⟩, ⟨"core.zr", core⟩, ⟨"array.zr", arrays⟩, ⟨"string.zr", strings⟩,
   ⟨"object.zr", objects⟩, ⟨"math.zr", math⟩, ⟨"result.zr", results⟩]

namespace Library

/-- The text of a library. Every line ends with a line feed. -/
def source (l : Library) : Text := l.lines.flatMap fun line => Text.ofString line ++ "\n"

/-- The program of a library. -/
def program? (l : Library) : Option Program :=
  (Program.parse l.source (some ("<prelude:" ++ l.file ++ ">"))).toOption

end Library

/-- The programs of the libraries. -/
def programs : List (Text × Program) :=
  libraries.filterMap fun l => l.program?.map (l.file, ·)

end ScriptEngine.Prelude
