import Wadi.Config.WadiConfig

/-!
The positional tokens of a command line, and with them the whole configuration. A token is
positional exactly when neither it nor the token in front of it is an option, so that a token
behind a flag is taken for the value of the flag. The first positional token is the address.
-/

namespace Wadi
open SizeString

end Wadi
