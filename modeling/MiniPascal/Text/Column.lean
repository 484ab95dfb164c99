/-!
# Columns

Tables pad their entries to a common width, counted in characters. An entry that is wider than its
column is written in full.
-/
namespace MiniPascal.Text

def padding (width : Nat) (s : String) : String :=
  String.ofList (List.replicate (width - s.length) ' ')

def alignRight (width : Nat) (s : String) : String := padding width s ++ s

def alignLeft (width : Nat) (s : String) : String := s ++ padding width s

end MiniPascal.Text
