/-!
# The texts for people at the terminal

What is printed when help or the version is asked for, and on a command line that asks for nothing
that can be done.
-/
namespace MutationInput.CommandLine

/-- The text that the version option prints. -/
def versionText : String := "patchql 0.1.0\n"

/-- The text that the help option prints. -/
def helpText : String :=
  "Lists the fields that a GraphQL mutation provides, and runs GraphQL operations.

Usage: patchql [OPTIONS] [COMMAND]

Commands:
  execute          Runs the query in a file against an endpoint
                     QUERY_FILE                  the query
                     -e, --endpoint <URL>        the endpoint
                     -H, --header <NAME:VALUE>   a further header, any number of times
                     --content-type <TYPE>       the content type of the request
                     --variables <FILE>          the variables, as JSON
  provided-fields  Lists the fields that a mutation provides
                     DOCUMENT                    the document
                     -f, --field <NAME>          the mutation field
                     -a, --argument <NAMES>      arguments to look at, between commas
                     --operation-name <NAME>     the operation
                     --require-bound-variables   every variable has to be bound
                     --variables <FILE>          the variables, as JSON
  help             Prints this text

Options:
  -v, --verbose  Logs at level debug
  -h, --help     Prints this text
  -V, --version  Prints the version
"

/-- The text that is printed for a command line that is not understood. -/
def usageText : String :=
  "error: the arguments are not understood\n\nFor more information, try '--help'.\n"

end MutationInput.CommandLine
