import TwigStyle.Toml.Basic
import TwigStyle.Toml.Text

/-!
# Numbers of TOML

Integers have 64 bits; one that does not fit is refused, and so is a fraction that exceeds every
number of double precision.
-/

namespace TwigStyle.Toml

/-! ### Digits -/

/-- The digits of a base at the start of a text; an underscore may stand between two of them. -/
def digitsOf (isDigit : Char → Bool) : List Char → List Char × List Char
  | [] => ([], [])
  | '_' :: d :: t =>
    if isDigit d then
      let (ds, rest) := digitsOf isDigit t
      (d :: ds, rest)
    else ([], '_' :: d :: t)
  | d :: t =>
    if isDigit d then
      let (ds, rest) := digitsOf isDigit t
      (d :: ds, rest)
    else ([], d :: t)

/-- At least one digit of a base, the first one without an underscore before it. -/
def digits? (isDigit : Char → Bool) (t : List Char) : Read (List Char) :=
  match t with
  | d :: _ => if isDigit d then some (digitsOf isDigit t) else none
  | [] => none

/-- The value of digits in a base. -/
def valueIn (base : Nat) (ds : List Char) : Nat :=
  ds.foldl (fun n d => base * n + (hexDigit? d).getD 0) 0

/-- A sign at the start of a text: is it a minus? -/
def sign : List Char → Option Bool × List Char
  | '-' :: t => (some true, t)
  | '+' :: t => (some false, t)
  | t => (none, t)

/-- The digits of a decimal integer: no zero in front of others. -/
def wholeDigits? : List Char → Read (List Char)
  | '0' :: t => some (['0'], t)
  | t => digits? Char.isDigit t

/-! ### Integers -/

/-- An integer of 64 bits. -/
def integerOf? (negative : Bool) (n : Nat) : Option Toml :=
  if negative then if n ≤ Nat.pow 2 63 then some (.integer (-(n : Int))) else none
  else if n < Nat.pow 2 63 then some (.integer n) else none

/-- An integer in a base other than ten. -/
def based? (base : Nat) (isDigit : Char → Bool) (t : List Char) : Read Toml :=
  match digits? isDigit t with
  | none => none
  | some (ds, rest) => (integerOf? false (valueIn base ds)).map fun v => (v, rest)

/-- An integer. -/
def integer? : List Char → Read Toml
  | '0' :: 'x' :: t => based? 16 (fun c => (hexDigit? c).isSome) t
  | '0' :: 'o' :: t => based? 8 (fun c => '0' ≤ c && c ≤ '7') t
  | '0' :: 'b' :: t => based? 2 (fun c => c == '0' || c == '1') t
  | t =>
    let (s, t) := sign t
    match wholeDigits? t with
    | none => none
    | some (ds, rest) => (integerOf? (s == some true) (valueIn 10 ds)).map fun v => (v, rest)

/-! ### Fractions -/

/-- The first magnitude that is rounded to infinity in double precision. -/
def tooLarge : Nat := Nat.pow 2 1024 - Nat.pow 2 970

/-- Is `mantissa * 10 ^ exponent` rounded to infinity? -/
def overflows (mantissa : Nat) (exponent : Int) : Bool :=
  if mantissa = 0 then false
  else
    let digits : Int := (Nat.toDigits 10 mantissa).length
    if digits + exponent > 400 then true
    else if digits + exponent < 300 then false
    else match exponent with
      | .ofNat e => tooLarge ≤ mantissa * Nat.pow 10 e
      | .negSucc e => tooLarge * Nat.pow 10 (e + 1) ≤ mantissa

/-- The exponent of a fraction. -/
def exponent? : List Char → Read Int
  | c :: t =>
    if c == 'e' || c == 'E' then
      let (s, t) := sign t
      (digits? Char.isDigit t).map fun (ds, rest) =>
        let n : Int := valueIn 10 ds
        (if s == some true then -n else n, rest)
    else none
  | [] => none

/-- What follows the whole part of a fraction: the digits after the point, and the exponent. -/
def fractionTail? (t : List Char) : Read (List Char × Int) :=
  match t with
  | '.' :: t =>
    match digits? Char.isDigit t with
    | none => none
    | some (ds, rest) =>
      match rest with
      | c :: _ =>
        if c == 'e' || c == 'E' then (exponent? rest).map fun (e, rest) => ((ds, e), rest)
        else some ((ds, 0), rest)
      | [] => some ((ds, 0), [])
  | t => (exponent? t).map fun (e, rest) => (([], e), rest)

/-- The words for infinity and for no number. -/
def specialFloat? : List Char → Option (List Char)
  | 'i' :: 'n' :: 'f' :: t => some t
  | 'n' :: 'a' :: 'n' :: t => some t
  | _ => none

/-- What a reader took off the front of a text. -/
def taken (t rest : List Char) : List Char := t.take (t.length - rest.length)

/-- A fraction. -/
def float? (text : List Char) : Read Toml :=
  let (s, t) := sign text
  match specialFloat? t with
  | some rest => some (.float (taken text rest), rest)
  | none =>
    match wholeDigits? t with
    | none => none
    | some (whole, t) =>
      match fractionTail? t with
      | none => none
      | some ((ds, e), rest) =>
        if s != some true && overflows (valueIn 10 (whole ++ ds)) (e - ds.length) then none
        else some (.float (taken text rest), rest)

/-- A number or a date. -/
def number? (t : List Char) : Read Toml :=
  ((datetime? t).map fun (d, rest) => (.datetime d, rest)).or ((float? t).or (integer? t))

end TwigStyle.Toml
