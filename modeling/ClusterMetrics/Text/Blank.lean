/-! # Blanks and lists

Blank characters are those of the Unicode property `White_Space`. A text is cut at a separator into
the pieces between its occurrences, of which there is always at least one. -/

namespace ClusterMetrics.Text

/-- The characters with the property `White_Space`. -/
def isBlank (c : Char) : Bool :=
  let n := c.toNat
  (9 ≤ n && n ≤ 13) || n == 0x20 || n == 0x85 || n == 0xA0 || n == 0x1680 ||
    (0x2000 ≤ n && n ≤ 0x200A) || n == 0x2028 || n == 0x2029 || n == 0x202F || n == 0x205F || n == 0x3000

/-- The text without the characters at its end that satisfy `p`. -/
def dropEndWhile (p : Char → Bool) (cs : List Char) : List Char :=
  (cs.reverse.dropWhile p).reverse

/-- The text without blanks at either end. -/
def trim (cs : List Char) : List Char :=
  dropEndWhile isBlank (cs.dropWhile isBlank)

/-- The pieces of a text between the occurrences of `sep`. -/
def splitOn (sep : Char) (cs : List Char) : List (List Char) :=
  cs.foldr (fun c pieces =>
    if c = sep then [] :: pieces
    else match pieces with
      | [] => [[c]]
      | p :: ps => (c :: p) :: ps) [[]]

/-- The text before the first character that satisfies `p` and the text after it. -/
def cutAt (p : Char → Bool) (cs : List Char) : Option (List Char × List Char) :=
  match cs.dropWhile (fun c => !p c) with
  | [] => none
  | _ :: after => some (cs.takeWhile (fun c => !p c), after)

/-- The entries of a comma list: trimmed, empty ones left out. -/
def commaList (cs : List Char) : List (List Char) :=
  ((splitOn ',' cs).map trim).filter (!·.isEmpty)

/-- The text in lower case; only ASCII letters change. -/
def toLowerAscii (cs : List Char) : List Char := cs.map Char.toLower

end ClusterMetrics.Text
