import FlowTour.Text.Unprinted

/-!
Text between quotation marks, with the mark itself, the backslash and every character that would not
show written as an escape.
-/

namespace FlowTour.Text

def escape (mark character : Char) : List Char :=
  if character = mark ∨ character = '\\' then ['\\', character]
  else if character = '\x00' then ['\\', '0']
  else if character = '\t' then ['\\', 't']
  else if character = '\n' then ['\\', 'n']
  else if character = '\r' then ['\\', 'r']
  else if isUnprinted character then
    '\\' :: 'u' :: '\x7b' :: (Nat.toDigits 16 character.toNat ++ ['\x7d'])
  else [character]

def quoteWith (mark : Char) (characters : List Char) : String :=
  String.ofList (mark :: (characters.flatMap (escape mark) ++ [mark]))

def quoteString (text : String) : String := quoteWith '"' text.toList

def quoteChar (character : Char) : String := quoteWith '\x27' [character]

end FlowTour.Text
