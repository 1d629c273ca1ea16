/-!
# Limits of whole numbers

The greatest whole numbers of the widths that occur in documents and on the command line.
The least signed number of a width is one further from zero than the greatest.
-/

namespace ResourceQuery
namespace Limits

/-- The greatest unsigned number of 64 bits. -/
def unsigned64 : Nat := 18446744073709551615

/-- The greatest signed number of 64 bits. -/
def signed64 : Nat := 9223372036854775807

/-- The greatest signed number of 32 bits. -/
def signed32 : Nat := 2147483647

end Limits
end ResourceQuery
