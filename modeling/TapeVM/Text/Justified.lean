/-! Texts set in columns. A width counts characters, and a text that is longer stays whole. -/
namespace TapeVM.Text

def padLeft (width : Nat) (text : String) : String :=
  String.ofList (text.toList.leftpad width ' ')

def padRight (width : Nat) (text : String) : String :=
  String.ofList (text.toList.rightpad width ' ')

end TapeVM.Text
