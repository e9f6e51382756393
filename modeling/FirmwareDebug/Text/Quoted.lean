import FirmwareDebug.Text.Hex
import FirmwareDebug.Text.Visible

/-! # Quoted text

Text in double quotes with escapes, so that every character of it can be told apart in a message.
-/

namespace FirmwareDebug.Text

def quotedChar (c : Char) : String :=
  if c = '\x00' then "\\0"
  else if c = '\t' then "\\t"
  else if c = '\r' then "\\r"
  else if c = '\n' then "\\n"
  else if c = '"' then "\\\""
  else if c = '\\' then "\\\\"
  else if isVisible c then String.singleton c
  else "\\u\x7b" ++ hex c.toNat ++ "\x7d"

def quoted (text : String) : String := "\"" ++ String.join (text.toList.map quotedChar) ++ "\""

end FirmwareDebug.Text
